import Cerberus.Resp

/-! # Splitting encodings

What `split_by` leaves behind on a stream of encodings, for any final type whose members do not
throw: its split points, its stack of element counts and the ranges it has handed out, all read
off the tokens of the stream.

With that, `split_cut_iff` says what `msg::split` makes of a stream that is cut anywhere, and
when the byte behind it matters; `splitBy_formatCommand` that it reads back what
`format_command` writes. -/

namespace Cerberus

open Frames

/-! ### A run over tokens -/

section
variable {σ : Type} {H : Hooks σ}

/-- No member of the final type throws. -/
structure Hooks.Quiet (H : Hooks σ) : Prop where
  onString : ∀ buf first last f, ∃ f', H.onString buf first last f = .ok f'
  onError : ∀ buf first last f, ∃ f', H.onError buf first last f = .ok f'
  onSplitPoint : ∀ buf back next f, ∃ f', H.onSplitPoint buf back next f = .ok f'
  onArray : ∀ empty size f, ∃ f', H.onArray empty size f = .ok f'

theorem messageSplitter_quiet : messageSplitter.Quiet :=
  ⟨fun _ _ _ _ => ⟨_, rfl⟩, fun _ _ _ _ => ⟨_, rfl⟩, fun _ _ _ _ => ⟨_, rfl⟩, fun _ _ _ => ⟨_, rfl⟩⟩

theorem Hooks.Quiet.safe (hq : H.Quiet) (buf : Bytes) : H.Safe buf (fun _ _ => True) := by
  have hsafe : ∀ {pos : ℤ} {r : Except Stop σ}, (∃ f, r = .ok f) → SafeAt (fun _ _ => True) pos r := by
    rintro pos r ⟨f, rfl⟩
    trivial
  exact ⟨fun _ _ => trivial, fun _ _ _ _ _ => hsafe (hq.onString _ _ _ _),
    fun _ _ _ _ _ => hsafe (hq.onError _ _ _ _), fun _ _ _ _ => hsafe (hq.onSplitPoint _ _ _ _),
    fun _ => hsafe (hq.onArray _ _ _)⟩

/-- The range a token at `pos` hands out. -/
def tokenCalls (pos : ℤ) (t : RawToken) : List Call :=
  match t.1 with
  | .str s => [.string (pos + t.2.length - lengthOfCrLf - s.length) (pos + t.2.length - lengthOfCrLf)]
  | .err s => [.error (pos + t.2.length - lengthOfCrLf - s.length) (pos + t.2.length - lengthOfCrLf)]
  | _ => []

/-- The splitter after a token at `pos`, `f` being its final type then. -/
def Splitter.afterToken (pos : ℤ) (t : RawToken) (f : σ) (s : Splitter σ) : Splitter σ :=
  { s with
    splitPoints := s.splitPoints ++
      if (kindStep s.nestedArrayElementCount t.1).2 then [pos + t.2.length] else []
    nestedArrayElementCount := (kindStep s.nestedArrayElementCount t.1).1
    calls := s.calls ++ tokenCalls pos t
    final := f }

theorem onElement_quiet (hq : H.Quiet) (buf : Bytes) (next : ℤ) (s : Splitter σ) :
    ∃ f, (s.onElement H buf next).bind (fun _ s => Result.ok next s) = .ok next
      { s with
        splitPoints := s.splitPoints ++
          if (Splitter.countDown s.nestedArrayElementCount).2 then [next] else []
        nestedArrayElementCount := (Splitter.countDown s.nestedArrayElementCount).1
        final := f } := by
  unfold Splitter.onElement
  dsimp only
  cases (Splitter.countDown s.nestedArrayElementCount).2 with
  | false => exact ⟨s.final, by simp⟩
  | true =>
      obtain ⟨f, hf⟩ := hq.onSplitPoint buf (s.splitPoints.getLastD 0) next s.final
      simp only [if_true, Splitter.interruptPoint, hf]
      exact ⟨f, rfl⟩

theorem onToken_quiet (hq : H.Quiet) (buf : Bytes) (pos : ℤ) (t : RawToken) (s : Splitter σ) :
    ∃ f, onToken H buf (t.1.token pos t.2.length) s = .ok (pos + t.2.length) (s.afterToken pos t f) := by
  obtain ⟨k, raw⟩ := t
  cases k with
  | int =>
      obtain ⟨f, hf⟩ := onElement_quiet hq buf (pos + raw.length) s
      refine ⟨f, hf.trans ?_⟩
      rw [Splitter.afterToken, tokenCalls, List.append_nil]
      rfl
  | nil =>
      obtain ⟨f, hf⟩ := onElement_quiet hq buf (pos + raw.length) s
      refine ⟨f, hf.trans ?_⟩
      rw [Splitter.afterToken, tokenCalls, List.append_nil]
      rfl
  | str x =>
      obtain ⟨g, hg⟩ := hq.onString buf (pos + raw.length - lengthOfCrLf - x.length)
        (pos + raw.length - lengthOfCrLf) s.final
      simp only [Kind.token, onToken, Splitter.record, hg]
      exact onElement_quiet hq buf (pos + raw.length) _
  | err x =>
      obtain ⟨g, hg⟩ := hq.onError buf (pos + raw.length - lengthOfCrLf - x.length)
        (pos + raw.length - lengthOfCrLf) s.final
      simp only [Kind.token, onToken, Splitter.record, hg]
      exact onElement_quiet hq buf (pos + raw.length) _
  | arr size =>
      obtain ⟨g, hg⟩ := hq.onArray s.nestedArrayElementCount.isEmpty size s.final
      simp only [Kind.token, onToken, Splitter.onArr, hg, Splitter.hook, Result.bind_ok,
        Splitter.afterToken, tokenCalls, kindStep]
      by_cases h0 : size = 0
      · simp only [h0, if_true]
        obtain ⟨f, hf⟩ := onElement_quiet hq buf (pos + raw.length) { s with final := g }
        exact ⟨f, hf.trans (by simp)⟩
      · simp only [h0, if_false]
        exact ⟨g, by simp⟩

/-- The stack of element counts behind the tokens. -/
def stackAfter (st : List ℤ) (ts : List RawToken) : List ℤ :=
  ts.foldl (fun st t => (kindStep st t.1).1) st

/-- The split points that the tokens add. -/
def pointsOf : ℤ → List ℤ → List RawToken → List ℤ
  | _, _, [] => []
  | pos, st, t :: ts =>
      (if (kindStep st t.1).2 then [pos + t.2.length] else []) ++
        pointsOf (pos + t.2.length) (kindStep st t.1).1 ts

/-- The ranges that the tokens hand out. -/
def callsOf : ℤ → List RawToken → List Call
  | _, [] => []
  | pos, t :: ts => tokenCalls pos t ++ callsOf (pos + t.2.length) ts

/-- `u` is the splitter `s` after the tokens, which begin at `pos`. -/
structure Ran (pos : ℤ) (ts : List RawToken) (s u : Splitter σ) : Prop where
  points : u.splitPoints = s.splitPoints ++ pointsOf pos s.nestedArrayElementCount ts
  nested : u.nestedArrayElementCount = stackAfter s.nestedArrayElementCount ts
  calls : u.calls = s.calls ++ callsOf pos ts
  interrupted : u.interrupted = s.interrupted

theorem Ran.cons {pos : ℤ} {t : RawToken} {ts : List RawToken} {s u : Splitter σ} {f : σ}
    (h : Ran (pos + t.2.length) ts (s.afterToken pos t f) u) : Ran pos (t :: ts) s u :=
  ⟨by rw [h.points, pointsOf, ← List.append_assoc]; rfl, h.nested,
    by rw [h.calls, callsOf, ← List.append_assoc]; rfl, h.interrupted⟩

/-- By induction on the tokens. -/
theorem steps_tokens (hq : H.Quiet) {buf : Bytes} (guard : Byte) {rest : Bytes} :
    ∀ (ts : List RawToken) (pos : ℤ) (s : Splitter σ), 0 ≤ pos → Lexes (bytesFrom buf pos) ts rest →
      ∃ u, Steps H buf guard pos s (pos + (rawBytes ts).length) u ∧ Ran pos ts s u
  | [], pos, s, _, _ => by
      refine ⟨s, ?_, by simp [pointsOf], rfl, by simp [callsOf], rfl⟩
      rw [rawBytes_nil, List.length_nil, Nat.cast_zero, add_zero]
      exact Steps.refl _ _
  | t :: ts, pos, s, h0, hlex => by
      cases hlex with
      | @cons _ _ k n _ hk hlex =>
      obtain ⟨hn3, hnl, -⟩ := lex_tok hk
      have hlen : ((bytesFrom buf pos).take n).length = n := List.length_take_of_le hnl
      have hlt : pos < buf.length := by
        rw [bytesFrom, List.length_drop] at hnl
        omega
      have hat := tokenAt_lex guard h0 hlt
      rw [hk] at hat
      obtain ⟨f, hf⟩ := onToken_quiet hq buf pos (k, (bytesFrom buf pos).take n) s
      simp only [hlen] at hf
      have hstep : tokenStep H buf guard pos s =
          .ok (pos + n) (s.afterToken pos (k, (bytesFrom buf pos).take n) f) := by
        unfold tokenStep
        rw [hat]
        exact hf
      obtain ⟨u, hu, hran⟩ := steps_tokens hq guard ts (pos + n)
        (s.afterToken pos (k, (bytesFrom buf pos).take n) f) (by omega)
        (by rw [bytesFrom_add h0 rfl n]; exact hlex)
      refine ⟨u, ?_, ?_⟩
      · have hend : pos + ((rawBytes ((k, (bytesFrom buf pos).take n) :: ts)).length : ℤ) =
            pos + n + (rawBytes ts).length := by
          rw [rawBytes_cons, List.length_append, hlen]
          push_cast
          omega
        rw [hend]
        exact Steps.step (by omega) hstep hu
      · exact Ran.cons (by rw [hlen]; exact hran)

/-- `split_by` when the run comes to the end of the buffer. -/
theorem splitBy_of_end (hq : H.Quiet) {buf : Bytes} {guard : Byte} (hL : LengthsOk guard buf) {f : σ}
    {u : Splitter σ} (hu : Steps H buf guard 0 (.new 0 f) buf.length u) :
    ∃ s, splitBy H buf guard (fuelFor buf) (.new 0 f) = .ok () s ∧ s.ranges = u := by
  have hfol := splitLoop_follows H buf guard (fuelFor buf) 0 (.new 0 f)
  unfold splitBy
  rcases splitLoop_ends (hq.safe buf) hL (f := f) trivial with ⟨s, hr⟩ | ⟨e, s, hr, he⟩
  · rw [hr] at hfol ⊢
    exact ⟨s, rfl, hu.end_unique hfol⟩
  · rw [hr] at hfol
    exact absurd (hfol he.ne_fuel) hu.end_not_stop

/-- `split_by` when the run comes to a token that is not complete. -/
theorem splitBy_of_interrupted (hq : H.Quiet) {buf : Bytes} {guard : Byte} (hL : LengthsOk guard buf)
    {f : σ} {u : Splitter σ} (hu : StepsStop H buf guard 0 (.new 0 f) .interrupted u) :
    ∃ s, splitBy H buf guard (fuelFor buf) (.new 0 f) = .ok () s ∧ s.interrupted = true := by
  have hfol := splitLoop_follows H buf guard (fuelFor buf) 0 (.new 0 f)
  unfold splitBy
  rcases splitLoop_ends (hq.safe buf) hL (f := f) trivial with ⟨s, hr⟩ | ⟨e, s, hr, he⟩
  · rw [hr] at hfol
    exact absurd hu (Steps.end_not_stop hfol)
  · rw [hr] at hfol ⊢
    obtain ⟨rfl, -⟩ := hu.unique (hfol he.ne_fuel)
    exact ⟨s.interrupt, rfl, rfl⟩

end

/-! ### The tokens of values -/

theorem stackAfter_append (st : List ℤ) (ts us : List RawToken) :
    stackAfter st (ts ++ us) = stackAfter (stackAfter st ts) us :=
  List.foldl_append

theorem kindStep_bottom {st : List ℤ} {k : Kind} (h : (kindStep st k).2 = true) : (kindStep st k).1 = [] := by
  cases k with
  | arr size =>
      rw [kindStep] at h ⊢
      split at h
      · rename_i h0
        rw [if_pos h0]
        exact countDown_bottom h
      · cases h
  | int => exact countDown_bottom h
  | str _ => exact countDown_bottom h
  | nil => exact countDown_bottom h
  | err _ => exact countDown_bottom h

theorem kindStep_stays {st : List ℤ} {k : Kind} (h : (kindStep st k).2 = false) : (kindStep st k).1 ≠ [] := by
  cases k with
  | arr size =>
      rw [kindStep] at h ⊢
      split at h
      · rename_i h0
        rw [if_pos h0]
        exact countDown_stays h
      · rename_i h0
        rw [if_neg h0]
        exact List.cons_ne_nil _ _
  | int => exact countDown_stays h
  | str _ => exact countDown_stays h
  | nil => exact countDown_stays h
  | err _ => exact countDown_stays h

/-- Tokens that close leave an empty stack and one split point, at their end. -/
theorem run_closes : ∀ {ts : List RawToken} {st : List ℤ} (pos : ℤ), Closes st (ts.map Prod.fst) →
    stackAfter st ts = [] ∧ pointsOf pos st ts = [pos + (rawBytes ts).length]
  | [], _, _, h => by cases h
  | t :: ts, st, pos, h => by
      rw [List.map_cons, closes_cons, List.map_eq_nil_iff] at h
      rcases h with ⟨hend, rfl⟩ | ⟨hend, hc⟩
      · refine ⟨kindStep_bottom hend, ?_⟩
        rw [pointsOf, if_pos hend, pointsOf, rawBytes_cons, rawBytes_nil, List.append_nil, List.append_nil]
      · obtain ⟨hst, hp⟩ := run_closes (pos + t.2.length) hc
        refine ⟨hst, ?_⟩
        rw [pointsOf, if_neg (by rw [hend]; decide), hp, rawBytes_cons, List.length_append, List.nil_append]
        push_cast
        rw [add_assoc]

/-- Within tokens that close the stack is not empty. -/
theorem stackAfter_inside : ∀ {ts us : List RawToken} {st : List ℤ},
    Closes st ((ts ++ us).map Prod.fst) → ts ≠ [] → us ≠ [] → stackAfter st ts ≠ []
  | [], _, _, _, hts, _ => absurd rfl hts
  | [t], us, st, hc, _, hus => by
      rw [List.singleton_append, List.map_cons, closes_cons, List.map_eq_nil_iff] at hc
      rcases hc with ⟨-, h⟩ | ⟨hend, -⟩
      · exact absurd h hus
      · exact kindStep_stays hend
  | t :: v :: ts, us, st, hc, _, hus => by
      rw [List.cons_append, List.map_cons, closes_cons] at hc
      rcases hc with ⟨-, h⟩ | ⟨-, hc⟩
      · cases h
      · exact @stackAfter_inside (v :: ts) us _ hc (List.cons_ne_nil _ _) hus

namespace Resp

theorem tokens_ne_nil {v : Resp} (h : v.WellFormed) : v.tokens ≠ [] := by
  intro hnil
  have hc := closes h
  rw [hnil] at hc
  cases hc

theorem stackAfter_tokensAll : ∀ {vs : List Resp}, AllWellFormed vs → stackAfter [] (tokensAll vs) = []
  | [], _ => by rw [tokensAll]; rfl
  | v :: vs, h => by
      rw [AllWellFormed] at h
      rw [tokensAll, stackAfter_append, (run_closes 0 (closes h.1)).1]
      exact stackAfter_tokensAll h.2

theorem allWellFormed_take : ∀ {vs : List Resp}, AllWellFormed vs → ∀ k, AllWellFormed (vs.take k)
  | _, _, 0 => by rw [List.take_zero, AllWellFormed]; trivial
  | [], h, _ + 1 => h
  | v :: vs, h, k + 1 => by
      rw [AllWellFormed] at h
      rw [List.take_succ_cons, AllWellFormed]
      exact ⟨h.1, allWellFormed_take h.2 k⟩

/-- Tokens from the beginning of a list of values that leave an empty stack are those of whole
values. -/
theorem boundary_of_stack : ∀ {vs : List Resp}, AllWellFormed vs → ∀ {ts : List RawToken},
    ts <+: tokensAll vs → stackAfter [] ts = [] → ∃ k, ts = tokensAll (vs.take k)
  | [], _, ts, hpre, _ => by
      rw [tokensAll, List.prefix_nil] at hpre
      exact ⟨0, by rw [hpre, List.take_nil, tokensAll]⟩
  | v :: vs, h, ts, hpre, hst => by
      rw [AllWellFormed] at h
      rw [tokensAll] at hpre
      rcases le_total v.tokens.length ts.length with hle | hle
      · obtain ⟨us, rfl⟩ := List.prefix_of_prefix_length_le (List.prefix_append _ _) hpre hle
        rw [stackAfter_append, (run_closes 0 (closes h.1)).1] at hst
        obtain ⟨k, rfl⟩ := boundary_of_stack h.2 ((List.prefix_append_right_inj _).mp hpre) hst
        exact ⟨k + 1, by rw [List.take_succ_cons, tokensAll]⟩
      · -- within the first value, where only the beginning will do
        obtain ⟨us, hus⟩ := List.prefix_of_prefix_length_le hpre (List.prefix_append _ _) hle
        by_cases hts : ts = []
        · exact ⟨0, by rw [hts, List.take_zero, tokensAll]⟩
        by_cases hnil : us = []
        · rw [hnil, List.append_nil] at hus
          exact ⟨1, by rw [hus, List.take_succ_cons, List.take_zero, tokensAll, tokensAll, List.append_nil]⟩
        · have hc := closes h.1
          rw [← hus] at hc
          exact absurd hst (stackAfter_inside hc hts hnil)

end Resp

/-! ### Where the bytes end -/

theorem Lexes.split : ∀ {ts us : List RawToken} {l m : Bytes}, Lexes l ts m → Lexes l us [] →
    ∃ ws, us = ts ++ ws ∧ Lexes m ws []
  | [], us, l, m, h, h' => by
      cases h
      exact ⟨us, rfl, h'⟩
  | t :: ts, us, l, m, h, h' => by
      cases h with
      | cons hk hlex =>
          cases h' with
          | nil => cases hk
          | cons hk' hlex' =>
              rw [hk] at hk'
              cases hk'
              obtain ⟨ws, rfl, hws⟩ := split hlex hlex'
              exact ⟨ws, rfl, hws⟩

theorem TokenStart.lexes {buf l : Bytes} (h : TokenStart buf l) : ∃ ts, Lexes buf ts l := by
  induction h with
  | here => exact ⟨[], .nil _⟩
  | next _ hl ih =>
      obtain ⟨ts, hts⟩ := ih
      exact ⟨_, hts.append (.cons hl (.nil _))⟩

/-- The bytes behind the last token are the same however one gets there. -/
theorem Lexes.stuck : ∀ {ts us : List RawToken} {l m m' : Bytes}, Lexes l ts m → Lexes l us m' →
    (∀ k n, lex m ≠ .tok k n) → (∀ k n, lex m' ≠ .tok k n) → m = m'
  | [], us, l, m, m', h, h', hm, _ => by
      cases h
      cases h' with
      | nil => rfl
      | cons hk _ => exact absurd hk (hm _ _)
  | t :: ts, us, l, m, m', h, h', hm, hm' => by
      cases h with
      | cons hk hlex =>
          cases h' with
          | nil => exact absurd hk (hm' _ _)
          | cons hk' hlex' =>
              rw [hk] at hk'
              cases hk'
              exact stuck hlex hlex' hm hm'

/-- A part of a token from its beginning is no token. -/
theorem lex_incomplete {t : RawToken} (ht : IsToken t) {q : Bytes} (hq : q <+: t.2) (hne : q ≠ t.2) :
    lex q = .more ∨ lex q = .colon := by
  obtain ⟨m, hm⟩ := hq
  have hfinal : ¬ (lex q).Final := by
    intro hf
    have heq := lex_append hf m
    rw [hm, show lex t.2 = _ from ht] at heq
    have hlen := (lex_tok heq.symm).2.1
    refine hne ?_
    rw [← hm] at hlen ⊢
    rw [List.length_append] at hlen
    rw [List.eq_nil_of_length_eq_zero (show m.length = 0 by omega), List.append_nil]
  cases hl : lex q with
  | more => exact Or.inl rfl
  | colon => exact Or.inr rfl
  | tok k n => exact absurd (by rw [hl]; trivial) hfinal
  | bad b => exact absurd (by rw [hl]; trivial) hfinal
  | negative => exact absurd (by rw [hl]; trivial) hfinal

/-! ### The byte behind the buffer -/

section
variable {σ α β : Type}

/-- The same result, unless the first one came to undefined behaviour. -/
def SameOrOverrun (r r' : Result σ α) : Prop := (∃ s, r = .throw .overrun s) ∨ r' = r

theorem SameOrOverrun.bind {r r' : Result σ α} {k k' : α → σ → Result σ β} (h : SameOrOverrun r r')
    (hk : ∀ a s, SameOrOverrun (k a s) (k' a s)) : SameOrOverrun (r.bind k) (r'.bind k') := by
  rcases h with ⟨s, rfl⟩ | rfl
  · exact Or.inl ⟨s, rfl⟩
  · cases r' with
    | ok a s => exact hk a s
    | throw e s => exact Or.inr rfl

variable (H : Hooks σ) (buf : Bytes) (guard : Byte)

theorem btoi_guard (pos : ℤ) :
    btoi buf (chr '-') pos = .error .overrun ∨ btoi buf guard pos = btoi buf (chr '-') pos := by
  unfold btoi
  cases bytesFrom buf pos with
  | nil => exact Or.inl (if_pos rfl)
  | cons b l => exact Or.inr rfl

theorem tokenAt_guard (pos : ℤ) :
    tokenAt buf (chr '-') pos = .error .overrun ∨ tokenAt buf guard pos = tokenAt buf (chr '-') pos := by
  unfold tokenAt
  cases deref buf pos with
  | none => exact Or.inl rfl
  | some b =>
      dsimp only
      by_cases hb : b = chr ':'
      · simp only [hb, if_true]
        rcases btoi_guard buf guard (pos + 1) with h | h
        · exact Or.inl (by rw [h]; rfl)
        · exact Or.inr (by rw [h])
      · rw [if_neg hb, if_neg hb]
        exact Or.inr rfl

/-- By induction on the fuel. -/
theorem parse_guard : ∀ fuel : ℕ,
    (∀ pos s, SameOrOverrun (parse H buf (chr '-') fuel pos s) (parse H buf guard fuel pos s)) ∧
    (∀ count pos s, SameOrOverrun (parseElements H buf (chr '-') fuel count pos s)
      (parseElements H buf guard fuel count pos s))
  | 0 => ⟨fun _ _ => Or.inr (by rw [parse, parse]), fun _ _ _ => Or.inr (by rw [parseElements, parseElements])⟩
  | fuel + 1 => by
      obtain ⟨ihp, ihe⟩ := parse_guard fuel
      refine ⟨fun pos s => ?_, fun count pos s => ?_⟩
      · by_cases hp : pos = buf.length
        · exact Or.inr (by rw [parse, parse, if_pos hp, if_pos hp])
        · rw [parse_succ fuel pos s hp, parse_succ fuel pos s hp]
          refine SameOrOverrun.bind (SameOrOverrun.bind ?_ fun t s => ?_) fun _ _ => Or.inr rfl
          · rcases tokenAt_guard buf guard pos with h | h
            · exact Or.inl ⟨s, by rw [h]; rfl⟩
            · exact Or.inr (by rw [h])
          · cases t with
            | arr size next =>
                rw [onTokenDeep_arr, onTokenDeep_arr]
                exact SameOrOverrun.bind (Or.inr rfl) fun next s => ihe size next s
            | int next => exact Or.inr rfl
            | str first next => exact Or.inr rfl
            | nil next => exact Or.inr rfl
            | err first next => exact Or.inr rfl
      · rw [parseElements, parseElements]
        split
        · exact (ihp pos s).bind fun pos s => ihe (count - 1) pos s
        · exact Or.inr rfl

theorem splitLoop_guard : ∀ (fuel : ℕ) (pos : ℤ) (s : Splitter σ),
    SameOrOverrun (splitLoop H buf (chr '-') fuel pos s) (splitLoop H buf guard fuel pos s)
  | 0, _, _ => Or.inr rfl
  | fuel + 1, pos, s => by
      rw [splitLoop, splitLoop]
      split
      · exact Or.inr rfl
      · exact ((parse_guard H buf guard fuel).1 pos s).bind fun pos s => splitLoop_guard fuel pos s

/-- If `split_by` returns when the byte behind the buffer is a `'-'`, it does the same whatever
that byte is. -/
theorem splitBy_guard {fuel : ℕ} {s u : Splitter σ} (h : splitBy H buf (chr '-') fuel s = .ok () u) :
    splitBy H buf guard fuel s = .ok () u := by
  unfold splitBy at h ⊢
  rcases splitLoop_guard H buf guard fuel 0 s with ⟨t, ht⟩ | ht
  · rw [ht] at h
    cases h
  · rw [ht]
    exact h

end

/-! ### A stream that is cut -/

/-- The bytes end with the type byte of an integer. -/
def CutBehindColon (vs : List Resp) (buf : Bytes) : Prop :=
  ∃ ts t us, Resp.tokensAll vs = ts ++ t :: us ∧ t.1 = .int ∧ buf = rawBytes ts ++ [chr ':']

theorem lengthsOk_of_rest {buf q : Bytes} {ts : List RawToken} (hn : NoNegative buf)
    (hlex : Lexes buf ts q) (hq : lex q = .more) (guard : Byte) : LengthsOk guard buf := by
  intro l hl
  refine ⟨hn l hl, fun hcol => ?_⟩
  obtain ⟨us, hus⟩ := hl.lexes
  have heq := hlex.stuck hus (by rw [hq]; nofun) (by rw [hcol]; nofun)
  rw [← heq, hq] at hcol
  cases hcol

section
variable {vs : List Resp} {buf : Bytes}

/-- The bytes end between two tokens. -/
theorem split_at_token (hvs : Resp.AllWellFormed vs) {ts : List RawToken} (hts : ts <+: Resp.tokensAll vs)
    (hbuf : buf = rawBytes ts) (guard : Byte) : ∃ s, split buf guard (fuelFor buf) = .ok () s ∧
      (s.finished = true ↔ ∃ k, buf = Resp.encodeAll (vs.take k)) := by
  have htok : ∀ t ∈ ts, IsToken t := fun t ht => Resp.tokensAll_isToken vs hvs t (hts.subset ht)
  have hlex : Lexes buf ts [] := by
    have := lexes_of_isToken htok []
    rwa [List.append_nil, ← hbuf] at this
  obtain ⟨u, hu, hran⟩ := steps_tokens messageSplitter_quiet guard ts 0 (.new 0 ()) le_rfl hlex
  rw [zero_add, ← hbuf] at hu
  obtain ⟨s, hs, rfl⟩ := splitBy_of_end messageSplitter_quiet hlex.lengthsOk hu
  refine ⟨s, hs, ?_⟩
  have hst : s.nestedArrayElementCount = stackAfter [] ts := hran.nested
  have hint : s.interrupted = false := hran.interrupted
  rw [Splitter.finished, hst, hint, Bool.not_false, Bool.and_true, List.isEmpty_iff]
  constructor
  · intro hnil
    obtain ⟨k, rfl⟩ := Resp.boundary_of_stack hvs hts hnil
    exact ⟨k, by rw [hbuf, Resp.rawBytes_tokensAll]⟩
  · rintro ⟨k, hk⟩
    have hwf := Resp.allWellFormed_take hvs k
    have hlex' := lexes_of_isToken (Resp.tokensAll_isToken _ hwf) []
    rw [List.append_nil, Resp.rawBytes_tokensAll, ← hk] at hlex'
    rw [hlex.unique hlex']
    exact Resp.stackAfter_tokensAll hwf

/-- The bytes end within a token, of which there is more than the type byte of an integer. -/
theorem split_in_token (hvs : Resp.AllWellFormed vs) (hpre : buf <+: Resp.encodeAll vs)
    {ts : List RawToken} {q : Bytes} (hlex : Lexes buf ts q) (hbuf : buf = rawBytes ts ++ q)
    (hne : q ≠ []) (hq : lex q = .more) (guard : Byte) : ∃ s, split buf guard (fuelFor buf) = .ok () s ∧
      (s.finished = true ↔ ∃ k, buf = Resp.encodeAll (vs.take k)) := by
  obtain ⟨m, hm⟩ := hpre
  have hall := lexes_of_isToken (Resp.tokensAll_isToken vs hvs) []
  rw [List.append_nil, Resp.rawBytes_tokensAll, ← hm] at hall
  have hn : NoNegative buf := fun l hl hneg => hall.noNegative _ (hl.append m) (by
    rw [lex_append (by rw [hneg]; trivial), hneg])
  obtain ⟨u, hu, -⟩ := steps_tokens messageSplitter_quiet guard ts 0 (.new 0 ()) le_rfl hlex
  rw [zero_add] at hu
  have hlen : (buf.length : ℤ) = (rawBytes ts).length + q.length := by
    rw [hbuf, List.length_append]
    push_cast
    rfl
  have hq0 := List.length_pos_iff.mpr hne
  have hat : Lexed.at guard (rawBytes ts).length (lex (bytesFrom buf _)) _ := tokenAt_lex guard (by omega) (by omega)
  have hfrom : bytesFrom buf ((rawBytes ts).length : ℤ) = q := by
    rw [bytesFrom, Int.toNat_natCast, hbuf, List.drop_left]
  rw [hfrom, hq] at hat
  have hstop : StepsStop messageSplitter buf guard 0 (.new 0 ()) .interrupted u := by
    refine ⟨_, u, hu, by omega, ?_⟩
    unfold tokenStep
    rw [show tokenAt buf guard _ = _ from hat]
    rfl
  obtain ⟨s, hs, hint⟩ := splitBy_of_interrupted messageSplitter_quiet
    (lengthsOk_of_rest hn hlex hq guard) hstop
  refine ⟨s, hs, ?_⟩
  rw [Splitter.finished, hint]
  simp only [Bool.not_true, Bool.and_false, Bool.false_eq_true, false_iff, not_exists]
  intro k hk
  have hlex' := lexes_of_isToken (Resp.tokensAll_isToken _ (Resp.allWellFormed_take hvs k)) []
  rw [List.append_nil, Resp.rawBytes_tokensAll, ← hk] at hlex'
  obtain ⟨ws, -, hws⟩ := hlex.split hlex'
  cases hws with
  | nil => exact hne rfl
  | cons hk' _ => rw [hq] at hk'; cases hk'

/-- At the type byte of an integer a `'-'` behind the buffer leads out of it. -/
theorem split_behind_colon (hvs : Resp.AllWellFormed vs) (h : CutBehindColon vs buf) (s : Splitter Unit) :
    split buf (chr '-') (fuelFor buf) ≠ .ok () s := by
  obtain ⟨ts, t, us, hts, -, hbuf⟩ := h
  have htok : ∀ t ∈ ts, IsToken t := fun t ht =>
    Resp.tokensAll_isToken vs hvs t (by rw [hts]; exact List.mem_append_left _ ht)
  have hlex : Lexes buf ts [chr ':'] := by
    rw [hbuf]
    exact lexes_of_isToken htok _
  obtain ⟨u, hu, -⟩ := steps_tokens messageSplitter_quiet (chr '-') ts 0 (.new 0 ()) le_rfl hlex
  rw [zero_add] at hu
  have hlen : (buf.length : ℤ) = (rawBytes ts).length + 1 := by
    rw [hbuf, List.length_append]
    push_cast
    rfl
  have hat : Lexed.at (chr '-') (rawBytes ts).length (lex (bytesFrom buf _)) _ :=
    tokenAt_lex (chr '-') (by omega) (by omega)
  have hfrom : bytesFrom buf ((rawBytes ts).length : ℤ) = [chr ':'] := by
    rw [bytesFrom, Int.toNat_natCast, hbuf, List.drop_left]
  rw [hfrom] at hat
  have hstop : StepsStop messageSplitter buf (chr '-') 0 (.new 0 ()) .overrun u := by
    refine ⟨_, u, hu, by omega, ?_⟩
    unfold tokenStep
    rw [show tokenAt buf (chr '-') _ = _ from hat]
    rfl
  have hfol := splitLoop_follows messageSplitter buf (chr '-') (fuelFor buf) 0 (.new 0 ())
  intro hs
  unfold split splitBy at hs
  split at hs
  · rename_i hr
    rw [hr] at hfol
    cases (hstop.unique (hfol (by rintro ⟨⟩))).1
  · rw [hs] at hfol
    exact Steps.end_not_stop hfol hstop

end

/-- On every piece of a stream of encodings `msg::split` returns the same whatever lies behind the
bytes, and has finished just if they end between two values: if and only if they do not end with
the type byte of an integer. -/
theorem split_cut_iff {vs : List Resp} (hvs : Resp.AllWellFormed vs) {buf : Bytes}
    (hbuf : buf <+: Resp.encodeAll vs) :
    (∃ s, (∀ guard, split buf guard (fuelFor buf) = .ok () s) ∧
      (s.finished = true ↔ ∃ k, buf = Resp.encodeAll (vs.take k))) ↔ ¬ CutBehindColon vs buf := by
  constructor
  · rintro ⟨s, hs, -⟩ hcut
    exact split_behind_colon hvs hcut s (hs (chr '-'))
  · intro hcut
    have htok := Resp.tokensAll_isToken vs hvs
    have hpre := hbuf
    rw [← Resp.rawBytes_tokensAll] at hpre
    have hne : ∀ t ∈ Resp.tokensAll vs, Prod.snd t ≠ [] := by
      intro t ht hnil
      have := (lex_tok (htok t ht)).1
      rw [hnil] at this
      cases this
    obtain ⟨k, q, hk, hsplit, hq⟩ := stream_cut hne hpre
    have hlex : Lexes buf ((Resp.tokensAll vs).take k) q := by
      rw [hsplit]
      exact lexes_of_isToken (fun t ht => htok t (List.mem_of_mem_take ht)) q
    have hret : ∃ s, split buf (chr '-') (fuelFor buf) = .ok () s ∧
        (s.finished = true ↔ ∃ k, buf = Resp.encodeAll (vs.take k)) := by
      by_cases hnil : q = []
      · rw [hnil, List.append_nil] at hsplit
        exact split_at_token hvs (List.take_prefix _ _) hsplit _
      · cases hdrop : (Resp.tokensAll vs).drop k with
        | nil => rw [hdrop] at hq; exact absurd hq hnil
        | cons t us =>
            rw [hdrop] at hq
            have hmem : t ∈ Resp.tokensAll vs := List.mem_of_mem_drop (by rw [hdrop]; simp)
            rcases lex_incomplete (htok t hmem) hq.1 hq.2 with hmore | hcolon
            · exact split_in_token hvs hbuf hlex hsplit hnil hmore _
            · refine absurd ⟨(Resp.tokensAll vs).take k, t, us, ?_, ?_, ?_⟩ hcut
              · rw [← hdrop, List.take_append_drop]
              · obtain ⟨m, hm⟩ := hq.1
                rw [lex_colon hcolon, List.singleton_append] at hm
                have := htok t hmem
                rw [IsToken, ← hm] at this
                exact lex_colon_tok this
              · rw [hsplit, lex_colon hcolon]
                rfl
    obtain ⟨s, hs, hfin⟩ := hret
    exact ⟨s, fun guard => splitBy_guard _ _ guard hs, hfin⟩

theorem split_cut_iff_bulk :
    (∃ s, (∀ guard, split (ascii ":-1\r\n$2\r\na") guard (fuelFor (ascii ":-1\r\n$2\r\na")) = .ok () s) ∧
      (s.finished = true ↔
        ∃ k, ascii ":-1\r\n$2\r\na" = Resp.encodeAll ([.int (-1), .bulk (ascii "ab")].take k))) ↔
    ¬ CutBehindColon [.int (-1), .bulk (ascii "ab")] (ascii ":-1\r\n$2\r\na") :=
  split_cut_iff (by simp [Resp.AllWellFormed, Resp.WellFormed, ascii]) (by decide +kernel)

/-- An integer of which only the type byte has arrived, with a `'-'` behind it in memory. -/
theorem split_lone_colon : ascii ":" <+: Resp.encodeAll [.int 1] ∧
    split (ascii ":") (chr '-') (fuelFor (ascii ":")) = .throw .overrun (.new 0 ()) ∧
    split (ascii ":") (chr '1') (fuelFor (ascii ":")) = .ok () (Splitter.interrupt (.new 0 ())) := by
  decide +kernel

/-! ### `format_command` -/

/-- Conversion of a size to `int`. -/
def toInt (n : ℕ) : ℤ := (n : ℤ).bmod (2 ^ 32)

/-- `util::join(sep, values)` -/
def join (sep : Bytes) : List Bytes → Bytes
  | [] => []
  | v :: values => values.foldl (fun result v => result ++ sep ++ v) v

/-- `format_command(command, args)`; `util::str` of an `int` is `decimalInt`. -/
def formatCommand (command : Bytes) (args : List Bytes) : Bytes :=
  join crlf ([chr '*' :: decimalInt (toInt (args.length + 1)), chr '$' :: decimalInt (toInt command.length),
    command] ++ args.flatMap fun s => [chr '$' :: decimalInt (toInt s.length), s]) ++ crlf

/-- The command as a value. -/
def commandValue (command : Bytes) (args : List Bytes) : Resp := .array ((command :: args).map .bulk)

theorem toInt_of_lt {n : ℕ} (h : n < 2 ^ 31) : toInt n = n :=
  Int.bmod_eq_of_le (by omega) (by omega)

theorem decimalInt_natCast (n : ℕ) : decimalInt n = decimal n := by
  rw [decimalInt, if_neg (by omega), Int.natAbs_natCast]

theorem join_crlf (v : Bytes) : ∀ values : List Bytes,
    values.foldl (fun result v => result ++ crlf ++ v) v ++ crlf = (v :: values).flatMap (· ++ crlf)
  | [] => by simp
  | w :: values => by
      rw [List.foldl_cons, join_crlf (v ++ crlf ++ w) values]
      simp

theorem encodeAll_bulks : ∀ ss : List Bytes, Resp.encodeAll (ss.map .bulk) = ss.flatMap encodeBulk
  | [] => by rw [List.map_nil, Resp.encodeAll, List.flatMap_nil]
  | s :: ss => by
      rw [List.map_cons, Resp.encodeAll, Resp.encode, encodeAll_bulks ss, List.flatMap_cons]

/-- What is written is the encoding of the command as an array of bulk strings. -/
theorem formatCommand_eq {command : Bytes} {args : List Bytes}
    (hsize : ∀ s ∈ command :: args, s.length < 2 ^ 31) (hcount : (command :: args).length < 2 ^ 31) :
    formatCommand command args = (commandValue command args).encode := by
  have hargs : ∀ ss : List Bytes, (∀ s ∈ ss, s.length < 2 ^ 31) →
      (ss.flatMap fun s => [chr '$' :: decimalInt (toInt s.length), s]).flatMap (· ++ crlf) =
        ss.flatMap encodeBulk := by
    intro ss hss
    rw [List.flatMap_assoc]
    refine List.flatMap_congr fun s hs => ?_
    rw [toInt_of_lt (hss s hs), decimalInt_natCast]
    simp [encodeBulk]
  have hall := hargs (command :: args) hsize
  rw [List.length_cons] at hcount
  rw [formatCommand, List.cons_append, join, join_crlf, List.flatMap_cons]
  rw [List.flatMap_cons] at hall
  rw [toInt_of_lt hcount, decimalInt_natCast, commandValue, Resp.encode, encodeAll_bulks, List.length_map,
    List.length_cons, encodeHeader]
  congr 1

/-- The text of a range handed to `on_string`. -/
def Call.text (buf : Bytes) : Call → Option Bytes
  | .string first last => slice buf first last
  | _ => none

/-- Where the range of a call begins. -/
def Call.first : Call → ℤ
  | .string first _ => first
  | .error first _ => first
  | .parsed start _ => start

theorem pointsOf_append (us : List RawToken) : ∀ (ts : List RawToken) (pos : ℤ) (st : List ℤ),
    pointsOf pos st (ts ++ us) =
      pointsOf pos st ts ++ pointsOf (pos + (rawBytes ts).length) (stackAfter st ts) us
  | [], pos, st => by simp [pointsOf, stackAfter]
  | t :: ts, pos, st => by
      rw [List.cons_append, pointsOf, pointsOf_append us ts, pointsOf, List.append_assoc, rawBytes_cons,
        List.length_append, Nat.cast_add, add_assoc]
      rfl

theorem callsOf_append (us : List RawToken) : ∀ (ts : List RawToken) (pos : ℤ),
    callsOf pos (ts ++ us) = callsOf pos ts ++ callsOf (pos + (rawBytes ts).length) us
  | [], pos => by simp [callsOf]
  | t :: ts, pos => by
      rw [List.cons_append, callsOf, callsOf_append us ts, callsOf, List.append_assoc, rawBytes_cons,
        List.length_append, Nat.cast_add, add_assoc]

/-- The split points of tokens lie behind their beginning. -/
theorem lt_of_mem_pointsOf : ∀ {ts : List RawToken} {pos : ℤ} {st : List ℤ}, (∀ t ∈ ts, IsToken t) →
    ∀ p ∈ pointsOf pos st ts, pos < p
  | [], _, _, _, p, hp => absurd hp List.not_mem_nil
  | t :: ts, pos, st, htok, p, hp => by
      have h3 := (lex_tok (htok t List.mem_cons_self)).1
      rw [pointsOf, List.mem_append] at hp
      rcases hp with hp | hp
      · split at hp
        · rw [List.mem_singleton.mp hp]
          omega
        · cases hp
      · have := lt_of_mem_pointsOf (fun u hu => htok u (List.mem_cons_of_mem _ hu)) p hp
        omega

/-- So do the ranges they hand out. -/
theorem lt_first_of_mem_callsOf : ∀ {ts : List RawToken} {pos : ℤ}, (∀ t ∈ ts, IsToken t) →
    ∀ c ∈ callsOf pos ts, pos < c.first
  | [], _, _, c, hc => absurd hc List.not_mem_nil
  | (k, raw) :: ts, pos, htok, c, hc => by
      obtain ⟨h3, -, hin⟩ := lex_tok (htok (k, raw) List.mem_cons_self)
      rw [callsOf, List.mem_append] at hc
      rcases hc with hc | hc
      · cases k with
        | str s =>
            rw [List.mem_singleton.mp hc]
            exact (textRange pos hin.1).1
        | err s =>
            rw [List.mem_singleton.mp hc]
            exact (textRange pos hin.1).1
        | int => cases hc
        | nil => cases hc
        | arr size => cases hc
      · have := lt_first_of_mem_callsOf (fun u hu => htok u (List.mem_cons_of_mem _ hu)) c hc
        dsimp only at this h3
        omega

/-- What `on_string` gets of the tokens; `none` stands for an error string. -/
def textsOf (ts : List RawToken) : List (Option Bytes) :=
  ts.flatMap fun t => match t.1 with
    | .str s => [some s]
    | .err _ => [none]
    | _ => []

theorem callsOf_texts {buf rest : Bytes} : ∀ (ts : List RawToken) (pos : ℤ), 0 ≤ pos →
    Lexes (bytesFrom buf pos) ts rest → (callsOf pos ts).map (Call.text buf) = textsOf ts
  | [], _, _, _ => rfl
  | t :: ts, pos, h0, hlex => by
      cases hlex with
      | @cons _ _ k n _ hk hlex =>
      obtain ⟨-, hnl, -⟩ := lex_tok hk
      have hlen : ((bytesFrom buf pos).take n).length = n := List.length_take_of_le hnl
      have ih := callsOf_texts ts (pos + n) (by omega) (by rw [bytesFrom_add h0 rfl n]; exact hlex)
      rw [callsOf, List.map_append, textsOf, List.flatMap_cons, hlen, ih]
      congr 1
      cases k with
      | str s =>
          rw [tokenCalls, List.map_singleton, hlen, Call.text, lex_text_slice h0 hk (Or.inl rfl)]
      | err s => rfl
      | int => rfl
      | nil => rfl
      | arr size => rfl

theorem textsOf_bulks : ∀ ss : List Bytes, textsOf (Resp.tokensAll (ss.map .bulk)) = ss.map some
  | [] => by rw [List.map_nil, Resp.tokensAll]; rfl
  | s :: ss => by
      rw [List.map_cons, Resp.tokensAll, Resp.tokens, List.singleton_append, textsOf, List.flatMap_cons,
        ← textsOf, textsOf_bulks ss]
      rfl

theorem textsOf_commandValue (command : Bytes) (args : List Bytes) :
    textsOf (commandValue command args).tokens = (command :: args).map some := by
  rw [commandValue, Resp.tokens, textsOf, List.flatMap_cons, ← textsOf, textsOf_bulks]
  rfl

theorem commandValue_wellFormed {command : Bytes} {args : List Bytes}
    (hsize : ∀ s ∈ command :: args, s.length < 2 ^ 31) (hcount : (command :: args).length < 2 ^ 31) :
    (commandValue command args).WellFormed := by
  have hall : ∀ ss : List Bytes, (∀ s ∈ ss, s.length < 2 ^ 31) → Resp.AllWellFormed (ss.map .bulk) := by
    intro ss hss
    induction ss with
    | nil => rw [List.map_nil, Resp.AllWellFormed]; trivial
    | cons s ss ih =>
        rw [List.map_cons, Resp.AllWellFormed, Resp.WellFormed]
        have := hss s List.mem_cons_self
        exact ⟨by omega, ih fun x hx => hss x (List.mem_cons_of_mem _ hx)⟩
  rw [commandValue, Resp.WellFormed, List.length_map]
  exact ⟨by omega, hall _ hsize⟩

/-- `split_by` over a formatted command and further messages, with any final type that does not
throw: the first split point behind the beginning is at the end of the command, and up to there
`on_string` gets the command and its arguments. -/
theorem splitBy_formatCommand {σ : Type} {H : Hooks σ} (hq : H.Quiet) (f : σ) (guard : Byte)
    {command : Bytes} {args : List Bytes} {vs : List Resp}
    (hsize : ∀ s ∈ command :: args, s.length < 2 ^ 31) (hcount : (command :: args).length < 2 ^ 31)
    (hvs : Resp.AllWellFormed vs) {buf : Bytes} (hbuf : buf = formatCommand command args ++ Resp.encodeAll vs) :
    ∃ s points calls later, splitBy H buf guard (fuelFor buf) (.new 0 f) = .ok () s ∧
      s.splitPoints = 0 :: ((formatCommand command args).length : ℤ) :: points ∧
      (∀ p ∈ points, ((formatCommand command args).length : ℤ) < p) ∧
      s.ranges.calls = calls ++ later ∧
      calls.map (Call.text buf) = (command :: args).map some ∧
      ∀ c ∈ later, ((formatCommand command args).length : ℤ) < c.first := by
  have hv := commandValue_wellFormed hsize hcount
  have htok := Resp.tokensAll_isToken vs hvs
  rw [formatCommand_eq hsize hcount] at hbuf ⊢
  have hfirst : Lexes buf (commandValue command args).tokens (Resp.encodeAll vs) := by
    rw [hbuf]
    exact Resp.lexes hv _
  have hlater := lexes_of_isToken htok []
  rw [List.append_nil, Resp.rawBytes_tokensAll] at hlater
  have hlex := hfirst.append hlater
  obtain ⟨u, hu, hran⟩ := steps_tokens hq guard _ 0 (.new 0 f) le_rfl hlex
  have hend : (0 : ℤ) + (rawBytes ((commandValue command args).tokens ++ Resp.tokensAll vs)).length = buf.length := by
    rw [← List.append_nil (rawBytes _), ← hlex.bytes, zero_add]
  rw [hend] at hu
  obtain ⟨s, hs, rfl⟩ := splitBy_of_end hq hlex.lengthsOk hu
  obtain ⟨hstack, hpoint⟩ := run_closes 0 (Resp.closes hv)
  have hpoints := hran.points
  have hcalls := hran.calls
  rw [show (Splitter.new 0 f).nestedArrayElementCount = [] from rfl, pointsOf_append, hpoint, hstack] at hpoints
  rw [show (Splitter.new 0 f).calls = [] from rfl, List.nil_append, callsOf_append] at hcalls
  rw [Resp.rawBytes_tokens, zero_add] at hpoints hcalls
  refine ⟨s, _, _, _, hs, hpoints, fun p => lt_of_mem_pointsOf htok p, hcalls, ?_,
    fun c => lt_first_of_mem_callsOf htok c⟩
  rw [callsOf_texts _ 0 le_rfl hfirst, textsOf_commandValue]

theorem splitBy_formatCommand_get : ∃ s points calls later,
    splitBy messageSplitter (formatCommand (ascii "GET") [ascii "a\r\n"] ++ Resp.encodeAll [.nilBulk]) 0
      (fuelFor (formatCommand (ascii "GET") [ascii "a\r\n"] ++ Resp.encodeAll [.nilBulk])) (.new 0 ()) = .ok () s ∧
    s.splitPoints = 0 :: ((formatCommand (ascii "GET") [ascii "a\r\n"]).length : ℤ) :: points ∧
    (∀ p ∈ points, ((formatCommand (ascii "GET") [ascii "a\r\n"]).length : ℤ) < p) ∧
    s.ranges.calls = calls ++ later ∧
    calls.map (Call.text (formatCommand (ascii "GET") [ascii "a\r\n"] ++ Resp.encodeAll [.nilBulk])) =
      [ascii "GET", ascii "a\r\n"].map some ∧
    ∀ c ∈ later, ((formatCommand (ascii "GET") [ascii "a\r\n"]).length : ℤ) < c.first :=
  splitBy_formatCommand messageSplitter_quiet () 0 (by decide) (by decide)
    (by simp [Resp.AllWellFormed, Resp.WellFormed]) rfl

/-- One string more, and the conversion of the count to `int` changes its sign. -/
theorem formatCommand_wraps {command : Bytes} {args : List Bytes} (h : (command :: args).length = 2 ^ 31) :
    ascii "*-2147483648\r\n" <+: formatCommand command args := by
  have hheader : chr '*' :: decimalInt (toInt (2 ^ 31)) ++ crlf = ascii "*-2147483648\r\n" := by decide +kernel
  rw [List.length_cons] at h
  rw [formatCommand, List.cons_append, join, join_crlf, List.flatMap_cons, h, hheader]
  exact List.prefix_append _ _

end Cerberus
