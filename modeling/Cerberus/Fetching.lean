import Cerberus.Encodings
import Cerberus.ClusterNodes
import Cerberus.Retries
import Mathlib.Data.Finset.Card

/-! # End of stream in the middle of a reply

A `SlotsMapUpdater` that reads an end of file does not know it: `Buffer::read` returns as it does
when there is nothing more to read, and `_recv_rsp` looks at the number of responses only.  What has
been received up to there stays in `_rsp`, whatever the pieces it has come in
(`awaiting_received`), and the updater waits for the rest of the first reply unless the bytes are
malformed (`updater_end_of_stream_iff`).

The bytes of the first reply are walked token by token.  `WithinReply buf guard p st` says that the
walk gets to `p` with the element counts `st` and has not reached the end of the reply. -/

namespace Cerberus

/-! ### The first reply -/

/-- What a token does to the stack of element counts, and whether it ends a message. -/
def Token.counts (st : List ℤ) : Token → List ℤ × Bool
  | .arr size _ => if size = 0 then Splitter.countDown st else (size :: st, false)
  | _ => Splitter.countDown st

theorem Token.counts_stays {st : List ℤ} {t : Token} (h : (t.counts st).2 = false) : (t.counts st).1 ≠ [] := by
  cases t with
  | arr size next => exact kindStep_stays (k := .arr size) h
  | int next => exact countDown_stays h
  | str first next => exact countDown_stays h
  | nil next => exact countDown_stays h
  | err first next => exact countDown_stays h

inductive WithinReply (buf : Bytes) (guard : Byte) : ℤ → List ℤ → Prop
  | start : WithinReply buf guard 0 []
  | token {p : ℤ} {st : List ℤ} {t : Token} : WithinReply buf guard p st →
      tokenAt buf guard p = .ok t → (t.counts st).2 = false →
      WithinReply buf guard t.next (t.counts st).1

/-- The buffer holds a complete reply. -/
def ReplyComplete (buf : Bytes) (guard : Byte) : Prop :=
  ∃ p st t, WithinReply buf guard p st ∧ tokenAt buf guard p = .ok t ∧ (t.counts st).2 = true

/-- A byte that begins no token stands where the first reply goes on. -/
def ReplyBroken (buf : Bytes) (guard : Byte) : Prop :=
  ∃ p st e, WithinReply buf guard p st ∧ tokenAt buf guard p = .error (.bad e)

section
variable {buf : Bytes} {guard : Byte}

/-- Only the beginning of a reply has an empty stack. -/
theorem WithinReply.bottom {p : ℤ} {st : List ℤ} (h : WithinReply buf guard p st) (hst : st = []) : p = 0 := by
  cases h with
  | start => rfl
  | token _ _ hcounts => exact absurd hst (Token.counts_stays hcounts)

theorem WithinReply.stuck {p : ℤ} {st : List ℤ} (h : WithinReply buf guard p st)
    (hstuck : ∀ t, tokenAt buf guard 0 ≠ .ok t) : p = 0 := by
  induction h with
  | start => rfl
  | token _ ht _ ih =>
      rw [ih] at ht
      exact absurd ht (hstuck _)

/-- A first token that is not there yet: no reply is. -/
theorem not_replyComplete_of_stuck (hstuck : ∀ t, tokenAt buf guard 0 ≠ .ok t) : ¬ ReplyComplete buf guard := by
  rintro ⟨p, st, t, hwithin, ht, -⟩
  rw [hwithin.stuck hstuck] at ht
  exact hstuck t ht

theorem deref_eq_none {pos : ℤ} (h : ¬ (0 ≤ pos ∧ pos < buf.length)) : deref buf pos = none := by
  unfold deref
  by_cases h0 : pos < 0
  · rw [if_pos h0]
  · rw [if_neg h0, List.getElem?_eq_none]
    omega

/-- Outside the buffer `parse` is undefined. -/
theorem tokenAt_inside (guard : Byte) {pos : ℤ} (h : tokenAt buf guard pos ≠ .error .overrun) : 0 ≤ pos ∧ pos < buf.length := by
  by_contra hout
  refine h ?_
  unfold tokenAt
  rw [deref_eq_none hout]

theorem tokenAt_ok_inside {pos : ℤ} {t : Token} (h : tokenAt buf guard pos = .ok t) : 0 ≤ pos ∧ pos < buf.length := by
  refine tokenAt_inside guard ?_
  rw [h]
  exact fun hc => by cases hc

theorem tokenAt_bad_inside {pos : ℤ} {e : BadRedisMessage} (h : tokenAt buf guard pos = .error (.bad e)) :
    0 ≤ pos ∧ pos < buf.length := by
  refine tokenAt_inside guard ?_
  rw [h]
  exact fun hc => by cases hc

/-- The text of an error is a range of the buffer. -/
theorem tokenAt_err_slice {pos first next : ℤ} (h : tokenAt buf guard pos = .ok (.err first next)) :
    ∃ text, slice buf first (next - lengthOfCrLf) = some text := by
  obtain ⟨h0, hlt⟩ := tokenAt_ok_inside h
  have hlex := tokenAt_lex guard h0 hlt
  rw [h] at hlex
  cases hk : lex (bytesFrom buf pos) with
  | tok k n =>
      rw [hk] at hlex
      cases k with
      | err s =>
          obtain ⟨rfl, rfl⟩ : first = pos + n - lengthOfCrLf - s.length ∧ next = pos + n := by
            simpa [Lexed.at, Kind.token] using hlex
          exact ⟨s, lex_text_slice h0 hk (Or.inr rfl)⟩
      | int => simp [Lexed.at, Kind.token] at hlex
      | str s => simp [Lexed.at, Kind.token] at hlex
      | arr size => simp [Lexed.at, Kind.token] at hlex
      | nil => simp [Lexed.at, Kind.token] at hlex
  | more => rw [hk] at hlex; cases hlex
  | bad b => rw [hk] at hlex; cases hlex
  | negative =>
      rw [hk] at hlex
      obtain ⟨_, _, hstr, -⟩ := hlex
      cases hstr
  | colon => rw [hk] at hlex; cases hlex

/-! ### What the splitter makes of it -/

/-- The splitter `u` after a token that has come upon `s`. -/
structure Counted (t : Token) (s u : Splitter ResponseSplitter) : Prop where
  nested : u.nestedArrayElementCount = (t.counts s.nestedArrayElementCount).1
  within : (t.counts s.nestedArrayElementCount).2 = false →
    u.splitPoints = s.splitPoints ∧ u.final.responses = s.final.responses
  complete : (t.counts s.nestedArrayElementCount).2 = true → u.final.responses ≠ []

/-- What `onToken` may do with a token: it goes on behind it, or throws for a range that is none. -/
def CountedTo (t : Token) (s : Splitter ResponseSplitter) : Result (Splitter ResponseSplitter) ℤ → Prop
  | .ok next u => next = t.next ∧ Counted t s u
  | .throw e _ => e = .overrun

theorem pushRsp_cases (buf : Bytes) (back next : ℤ) (r : ResponseSplitter) :
    r.onSplitPoint buf back next = .error .overrun ∨
    ∃ r', r.onSplitPoint buf back next = .ok r' ∧ r'.responses ≠ [] := by
  unfold ResponseSplitter.onSplitPoint ResponseSplitter.pushRsp
  split
  · exact Or.inr ⟨_, rfl, by simp [ResponseSplitter.pushRetryRsp]⟩
  · unfold ResponseSplitter.pushNormalRsp
    cases slice buf back next with
    | none => exact Or.inl rfl
    | some b => exact Or.inr ⟨_, rfl, by simp⟩

/-- The end of a token that counts as an element. -/
theorem onElement_counted {t : Token} {s s₀ : Splitter ResponseSplitter}
    (hcounts : t.counts s₀.nestedArrayElementCount = Splitter.countDown s.nestedArrayElementCount)
    (hpoints : s.splitPoints = s₀.splitPoints) (hrsp : s.final.responses = s₀.final.responses) :
    CountedTo t s₀ ((s.onElement responseSplitter buf t.next).bind fun _ s => .ok t.next s) := by
  unfold Splitter.onElement
  dsimp only
  cases hend : (Splitter.countDown s.nestedArrayElementCount).2 with
  | false =>
      rw [if_neg (by decide)]
      refine ⟨rfl, ?_, fun _ => ⟨hpoints, hrsp⟩, fun h => ?_⟩
      · rw [hcounts]
      · rw [hcounts, hend] at h
        cases h
  | true =>
      rw [if_pos rfl]
      rcases pushRsp_cases buf (s.splitPoints.getLastD 0) t.next s.final with h | ⟨r, h, hne⟩
      · simp only [Splitter.interruptPoint, responseSplitter, h]
        rfl
      · simp only [Splitter.interruptPoint, responseSplitter, h]
        refine ⟨rfl, ?_, fun h => ?_, fun _ => hne⟩
        · rw [hcounts]
        · rw [hcounts, hend] at h
          cases h

theorem onToken_counted (buf : Bytes) (t : Token) (s : Splitter ResponseSplitter) :
    CountedTo t s (onToken responseSplitter buf t s) := by
  cases t with
  | int next => exact onElement_counted (t := .int next) rfl rfl rfl
  | nil next => exact onElement_counted (t := .nil next) rfl rfl rfl
  | str first next => exact onElement_counted (t := .str first next) (s := s.record _) rfl rfl rfl
  | err first next =>
      simp only [onToken, responseSplitter, ResponseSplitter.onError]
      cases slice buf first (next - lengthOfCrLf) with
      | none => rfl
      | some text =>
          exact onElement_counted (t := .err first next)
            (s := { s.record (.error first (next - lengthOfCrLf)) with final := { s.final with lastError := text } })
            rfl rfl rfl
  | arr size next =>
      simp only [onToken, Splitter.onArr, responseSplitter, Splitter.hook, Result.bind_ok]
      by_cases h0 : size = 0
      · rw [if_pos h0]
        exact onElement_counted (t := .arr size next) (if_pos h0) rfl rfl
      · rw [if_neg h0]
        have hcounts : (Token.arr size next).counts s.nestedArrayElementCount =
            (size :: s.nestedArrayElementCount, false) := if_neg h0
        refine ⟨rfl, ?_, fun _ => ⟨rfl, rfl⟩, fun h => ?_⟩
        · rw [hcounts]
        · rw [hcounts] at h
          cases h

/-- A token that does not end the reply is always handled. -/
theorem onToken_within {pos : ℤ} {t : Token} {s : Splitter ResponseSplitter} (ht : tokenAt buf guard pos = .ok t)
    (hcounts : (t.counts s.nestedArrayElementCount).2 = false) :
    ∃ u, onToken responseSplitter buf t s = .ok t.next u := by
  have hel : ∀ s' : Splitter ResponseSplitter,
      (Splitter.countDown s'.nestedArrayElementCount).2 = false → ∀ next : ℤ,
      ∃ u, ((s'.onElement responseSplitter buf next).bind fun _ s => Result.ok next s) = .ok next u := by
    intro s' h next
    unfold Splitter.onElement
    dsimp only
    rw [h]
    exact ⟨_, rfl⟩
  cases t with
  | int next => exact hel s hcounts next
  | nil next => exact hel s hcounts next
  | str first next => exact hel (s.record _) hcounts next
  | err first next =>
      obtain ⟨text, htext⟩ := tokenAt_err_slice ht
      simp only [onToken, responseSplitter, ResponseSplitter.onError, htext]
      exact hel { s.record (.error first (next - lengthOfCrLf)) with final := { s.final with lastError := text } }
        hcounts next
  | arr size next =>
      simp only [onToken, Splitter.onArr, responseSplitter, Splitter.hook, Result.bind_ok]
      by_cases h0 : size = 0
      · rw [if_pos h0]
        exact hel s (by rwa [Token.counts, if_pos h0] at hcounts) next
      · rw [if_neg h0]
        exact ⟨_, rfl⟩

/-- A splitter that has started on the first reply and not come to its end. -/
structure Unsplit (buf : Bytes) (guard : Byte) (p : ℤ) (s : Splitter ResponseSplitter) : Prop where
  within : WithinReply buf guard p s.nestedArrayElementCount
  points : s.splitPoints = [0]
  responses : s.final.responses = []

theorem unsplit_new (buf : Bytes) (guard : Byte) : Unsplit buf guard 0 (.new 0 ⟨[], []⟩) := ⟨.start, rfl, rfl⟩

/-- As long as there is no response, the splitter is within the first reply. -/
theorem Unsplit.steps {p q : ℤ} {s u : Splitter ResponseSplitter}
    (h : Steps responseSplitter buf guard p s q u)
    (hs : Unsplit buf guard p s ∨ ReplyComplete buf guard ∧ s.final.responses ≠ []) :
    Unsplit buf guard q u ∨ ReplyComplete buf guard ∧ u.final.responses ≠ [] := by
  induction h with
  | refl => exact hs
  | @step p p₁ p₂ s s₁ s₂ _ hstep _ ih =>
      refine ih ?_
      unfold tokenStep at hstep
      cases ht : tokenAt buf guard p with
      | error e => rw [ht] at hstep; cases hstep
      | ok t =>
          rw [ht, Result.lift_ok, Result.bind_ok] at hstep
          have hto := onToken_counted buf t s
          rw [hstep] at hto
          obtain ⟨rfl, hc⟩ := hto
          cases hend : (t.counts s.nestedArrayElementCount).2 with
          | true =>
              refine Or.inr ⟨?_, hc.complete hend⟩
              rcases hs with hs | hs
              · exact ⟨p, _, t, hs.within, ht, hend⟩
              · exact hs.1
          | false =>
              obtain ⟨hpoints, hrsp⟩ := hc.within hend
              rcases hs with hs | hs
              · refine Or.inl ⟨?_, hpoints.trans hs.points, hrsp.trans hs.responses⟩
                rw [hc.nested]
                exact hs.within.token ht hend
              · exact Or.inr ⟨hs.1, by rw [hrsp]; exact hs.2⟩

/-- The flat run gets wherever the walk gets. -/
theorem WithinReply.steps {p : ℤ} {st : List ℤ} (h : WithinReply buf guard p st) :
    ∃ s, Steps responseSplitter buf guard 0 (.new 0 ⟨[], []⟩) p s ∧ s.nestedArrayElementCount = st := by
  induction h with
  | start => exact ⟨_, Steps.refl _ _, rfl⟩
  | @token p st t _ ht hend ih =>
      obtain ⟨s, hsteps, rfl⟩ := ih
      obtain ⟨u, hu⟩ := onToken_within ht hend
      have hto := onToken_counted buf t s
      rw [hu] at hto
      refine ⟨u, hsteps.trans (.step ?_ ?_ (Steps.refl _ _)), hto.2.nested⟩
      · have := (tokenAt_ok_inside ht).2
        omega
      · rw [tokenStep, ht]
        exact hu

/-- What `tokenStep` throws comes from the token, or from a range that is none. -/
theorem tokenStep_throw {p : ℤ} {s u : Splitter ResponseSplitter} {e : Stop}
    (h : tokenStep responseSplitter buf guard p s = .throw e u) :
    e = .overrun ∨ tokenAt buf guard p = .error e ∧ u = s := by
  unfold tokenStep at h
  cases ht : tokenAt buf guard p with
  | error e' =>
      rw [ht] at h
      cases h
      exact Or.inr ⟨rfl, rfl⟩
  | ok t =>
      rw [ht, Result.lift_ok, Result.bind_ok] at h
      have hto := onToken_counted buf t s
      rw [h] at hto
      exact Or.inl hto

/-! ### The way to a bad byte -/

/-- The walk from `p` comes upon a bad byte after `n` tokens. -/
inductive ToBad (buf : Bytes) (guard : Byte) : ℕ → ℤ → Prop
  | bad {p : ℤ} {e : BadRedisMessage} : tokenAt buf guard p = .error (.bad e) → ToBad buf guard 0 p
  | token {n : ℕ} {p : ℤ} {t : Token} : tokenAt buf guard p = .ok t → ToBad buf guard n t.next →
      ToBad buf guard (n + 1) p

theorem ToBad.inside {n : ℕ} {p : ℤ} (h : ToBad buf guard n p) : 0 ≤ p ∧ p < buf.length := by
  cases h with
  | bad hbad => exact tokenAt_bad_inside hbad
  | token ht _ => exact tokenAt_ok_inside ht

theorem ToBad.unique {n m : ℕ} {p : ℤ} (h : ToBad buf guard n p) (h' : ToBad buf guard m p) : n = m := by
  induction h generalizing m with
  | bad hbad =>
      cases h' with
      | bad => rfl
      | token ht _ => rw [hbad] at ht; cases ht
  | token ht _ ih =>
      cases h' with
      | bad hbad => rw [hbad] at ht; cases ht
      | token ht' hn' =>
          rw [ht] at ht'
          cases ht'
          rw [ih hn']

theorem ToBad.nearer {n : ℕ} {p : ℤ} (h : ToBad buf guard n p) : ∀ i ≤ n, ∃ q, ToBad buf guard i q := by
  induction h with
  | @bad p e hbad =>
      intro i hi
      obtain rfl : i = 0 := by omega
      exact ⟨p, .bad hbad⟩
  | @token n p t ht hn ih =>
      intro i hi
      rcases Nat.lt_or_ge n i with hlt | hle
      · obtain rfl : i = n + 1 := by omega
        exact ⟨p, .token ht hn⟩
      · exact ih i hle

/-- The walk visits no position twice, though a negative length may send it back. -/
theorem ToBad.lt_length {n : ℕ} {p : ℤ} (h : ToBad buf guard n p) : n < buf.length := by
  have hnearer := h.nearer
  choose! at' hat using hnearer
  have hle : ∀ i ∈ (Finset.range (n + 1) : Set ℕ), i ≤ n := by
    intro i hi
    rw [Finset.coe_range, Set.mem_Iio] at hi
    omega
  have hcard : (Finset.range (n + 1)).card ≤ (Finset.range buf.length).card := by
    refine Finset.card_le_card_of_injOn (fun i => (at' i).toNat) (fun i hi => ?_) fun i hi j hj hij => ?_
    · have hin := (hat i (hle i hi)).inside
      rw [Finset.coe_range, Set.mem_Iio]
      dsimp only
      omega
    · have hi0 := (hat i (hle i hi)).inside
      have hj0 := (hat j (hle j hj)).inside
      have heq : at' i = at' j := by
        dsimp only at hij
        omega
      exact (hat i (hle i hi)).unique (heq ▸ hat j (hle j hj))
  rw [Finset.card_range, Finset.card_range] at hcard
  omega

theorem WithinReply.toBad {p : ℤ} {st : List ℤ} (h : WithinReply buf guard p st) :
    ∀ {n : ℕ}, ToBad buf guard n p → ∃ m, ToBad buf guard m 0 := by
  induction h with
  | start => exact fun hn => ⟨_, hn⟩
  | token _ ht _ ih => exact fun hn => ih (.token ht hn)

theorem ToBad.haltsIn {n : ℕ} {p : ℤ} (h : ToBad buf guard n p) :
    ∀ s, HaltsIn responseSplitter buf guard (n + 1) p s := by
  induction h with
  | bad hbad =>
      intro s
      unfold HaltsIn
      refine Or.inr ?_
      rw [tokenStep, hbad]
      exact fun hc => by cases hc
  | @token n p t ht _ ih =>
      intro s
      unfold HaltsIn
      refine Or.inr ?_
      rw [tokenStep, ht, Result.lift_ok, Result.bind_ok]
      have hto := onToken_counted buf t s
      cases hr : onToken responseSplitter buf t s with
      | ok next u =>
          rw [hr] at hto
          obtain ⟨rfl, -⟩ := hto
          exact ih u
      | throw e u =>
          rw [hr] at hto
          rw [show e = .overrun from hto]
          exact fun hc => by cases hc

/-! ### `split_server_response` -/

theorem splitServerResponse_follows (buf : Bytes) (guard : Byte) :
    Follows responseSplitter buf guard 0 (.new 0 ⟨[], []⟩) (fun _ => (buf.length : ℤ))
      (splitLoop responseSplitter buf guard (fuelFor buf) 0 (.new 0 ⟨[], []⟩)) :=
  splitLoop_follows responseSplitter buf guard (fuelFor buf) 0 (.new 0 ⟨[], []⟩)

/-- The splitter of a call that has returned, and where it has stopped. -/
theorem splitServerResponse_split {rest : Bytes} {rsps : List Response}
    (h : splitServerResponse buf guard = .split rest rsps) :
    ∃ p s, Steps responseSplitter buf guard 0 (.new 0 ⟨[], []⟩) p s ∧ rsps = s.final.responses ∧
      (rest = buf.drop s.interruptPoint.toNat ∨
        p = buf.length ∧ s.nestedArrayElementCount = [] ∧ rest = []) := by
  have hfollows := splitServerResponse_follows buf guard
  unfold splitServerResponse splitBy at h
  cases hr : splitLoop responseSplitter buf guard (fuelFor buf) 0 (.new 0 ⟨[], []⟩) with
  | ok _ s =>
      rw [hr] at hfollows h
      cases h
      refine ⟨_, s.ranges, hfollows, rfl, ?_⟩
      unfold truncate
      by_cases hfin : s.finished = true
      · rw [if_pos hfin]
        refine Or.inr ⟨rfl, ?_, rfl⟩
        unfold Splitter.finished at hfin
        rw [Bool.and_eq_true, List.isEmpty_iff] at hfin
        exact hfin.1
      · rw [if_neg hfin]
        exact Or.inl rfl
  | throw e s =>
      rw [hr] at hfollows h
      cases e with
      | interrupted =>
          cases h
          obtain ⟨p, t, hsteps, -, hthrow⟩ := hfollows (fun hc => by cases hc)
          rcases tokenStep_throw hthrow with hc | ⟨-, hs⟩
          · cases hc
          · refine ⟨p, t, hsteps, ?_, Or.inl ?_⟩
            · rw [← hs]
              rfl
            · unfold truncate Splitter.finished Splitter.interrupt
              rw [← hs, Bool.not_true, Bool.and_false, if_neg (by decide)]
              rfl
      | bad _ => cases h
      | overrun => cases h
      | fuel => cases h

/-- Without a response nothing is taken out of the buffer. -/
theorem splitServerResponse_none {rest : Bytes} (h : splitServerResponse buf guard = .split rest []) : rest = buf := by
  obtain ⟨p, s, hsteps, hrsp, hrest⟩ := splitServerResponse_split h
  rcases Unsplit.steps hsteps (Or.inl (unsplit_new buf guard)) with hs | hs
  · rcases hrest with hrest | ⟨hp, hnested, hrest⟩
    · rw [hrest, Splitter.interruptPoint, hs.points]
      rfl
    · have hzero := hs.within.bottom hnested
      have hnil : buf.length = 0 := by omega
      rw [hrest, List.eq_nil_of_length_eq_zero hnil]
  · exact absurd hrsp.symm hs.2

theorem splitServerResponse_incomplete (hnone : ¬ ReplyComplete buf guard) {rest : Bytes} {rsps : List Response}
    (h : splitServerResponse buf guard = .split rest rsps) : rsps = [] := by
  obtain ⟨p, s, hsteps, hrsp, -⟩ := splitServerResponse_split h
  rcases Unsplit.steps hsteps (Or.inl (unsplit_new buf guard)) with hs | hs
  · rw [hrsp, hs.responses]
  · exact absurd hs.1 hnone

/-- As long as the first reply is not complete, `BadRedisMessage` is thrown just for a bad byte in
it. -/
theorem splitServerResponse_bad_iff (hnone : ¬ ReplyComplete buf guard) :
    (∃ e, splitServerResponse buf guard = .failed (.bad e) []) ↔ ReplyBroken buf guard := by
  have hfollows := splitServerResponse_follows buf guard
  constructor
  · rintro ⟨e, h⟩
    unfold splitServerResponse splitBy at h
    cases hr : splitLoop responseSplitter buf guard (fuelFor buf) 0 (.new 0 ⟨[], []⟩) with
    | ok _ s => rw [hr] at h; cases h
    | throw e' s =>
        rw [hr] at hfollows h
        cases e' with
        | interrupted => cases h
        | overrun => cases h
        | fuel => cases h
        | bad e' =>
            obtain ⟨p, t, hsteps, -, hthrow⟩ := hfollows (fun hc => by cases hc)
            rcases tokenStep_throw hthrow with hc | ⟨htok, -⟩
            · cases hc
            · rcases Unsplit.steps hsteps (Or.inl (unsplit_new buf guard)) with ht | ht
              · exact ⟨p, _, e', ht.within, htok⟩
              · exact absurd ht.1 hnone
  · rintro ⟨p, st, e, hwithin, hbad⟩
    obtain ⟨s, hsteps, -⟩ := hwithin.steps
    have hstop : StepsStop responseSplitter buf guard 0 (.new 0 ⟨[], []⟩) (.bad e) s := by
      refine ⟨p, s, hsteps, ?_, ?_⟩
      · have := (tokenAt_bad_inside hbad).2
        omega
      · rw [tokenStep, hbad]
        rfl
    -- the loop has fuel for all the tokens before the bad byte
    obtain ⟨n, hn⟩ := hwithin.toBad (.bad hbad)
    have hlen := hn.lt_length
    have hfuel := splitLoop_fuelled responseSplitter guard (fuelFor buf) (n + 1) 0 (.new 0 ⟨[], []⟩)
      (by unfold fuelFor; omega) (hn.haltsIn _)
    refine ⟨e, ?_⟩
    unfold splitServerResponse splitBy
    cases hr : splitLoop responseSplitter buf guard (fuelFor buf) 0 (.new 0 ⟨[], []⟩) with
    | ok _ u =>
        rw [hr] at hfollows
        exact absurd hstop (Steps.end_not_stop hfollows)
    | throw e' u =>
        rw [hr] at hfollows
        have hne : e' ≠ .fuel := by
          rintro rfl
          exact hfuel u hr
        obtain ⟨rfl, -⟩ := StepsStop.unique hstop (hfollows hne)
        rfl

end

/-! ### The updater -/

/-- The bits of an event of an updater: a hang-up, how the write of the request ends, what a read
finds. -/
structure UpdaterPoll where
  hup : Bool
  write : Option (Option ConnThrow)
  read : Option Input

namespace UpdaterPoll

/-- `SlotsMapUpdater::on_events(events)`, up to what the proxy is told: `_rsp` and what the updater
has come upon. -/
def onEvents (junk : ℕ → ℕ → ℕ → ℤ) (host rsp : Bytes) (e : UpdaterPoll) : Bytes × Option Reply :=
  if e.hup then (rsp, some .hup)
  else match e.write with
  | some none => (rsp, some .sent)
  | some (some t) => (rsp, some (.threw t))
  | none => match e.read with
    | some inp => ((recvRsp junk host rsp inp).1, some (recvRsp junk host rsp inp).2)
    | none => (rsp, none)

/-- The bytes the event takes from the remote. -/
def received (e : UpdaterPoll) : Bytes :=
  if e.hup then []
  else match e.write, e.read with
  | none, some inp => inp.bytes
  | _, _ => []

/-- The event has not finished the updater. -/
def waits : Option Reply → Bool
  | none => true
  | some .sent => true
  | some .more => true
  | _ => false

/-- `_rsp` after some events, if the updater still waits for its answer then. -/
def awaiting (junk : ℕ → ℕ → ℕ → ℤ) (host : Bytes) : List UpdaterPoll → Bytes → Option Bytes
  | [], rsp => some rsp
  | e :: es, rsp =>
      if waits (e.onEvents junk host rsp).2 then awaiting junk host es (e.onEvents junk host rsp).1 else none

variable {junk : ℕ → ℕ → ℕ → ℤ} {host rsp : Bytes} {inp : Input}

theorem recvRsp_waits (h : waits (some (recvRsp junk host rsp inp).2) = true) :
    (recvRsp junk host rsp inp).1 = rsp ++ inp.bytes := by
  unfold recvRsp at h ⊢
  cases hread : readInto rsp inp with
  | mk buf t =>
      have hbuf : buf = rsp ++ inp.bytes := (congrArg Prod.fst hread).symm
      rw [hread] at h
      cases t with
      | some t => cases h
      | none =>
          dsimp only at h ⊢
          cases hsplit : splitServerResponse buf inp.guard with
          | failed e out =>
              rw [hsplit] at h
              dsimp only at h
              split at h <;> cases h
          | split rest rsps =>
              rw [hsplit] at h
              rcases rsps with _ | ⟨r, _ | ⟨r', rsps⟩⟩
              · rw [splitServerResponse_none hsplit]
                exact hbuf
              · cases h
              · cases h

theorem onEvents_waits {e : UpdaterPoll} (h : waits (e.onEvents junk host rsp).2 = true) :
    (e.onEvents junk host rsp).1 = rsp ++ e.received := by
  obtain ⟨hup, write, read⟩ := e
  cases hup with
  | true => cases h
  | false =>
      cases write with
      | some t => cases t <;> exact (List.append_nil rsp).symm
      | none =>
          cases read with
          | none => exact (List.append_nil rsp).symm
          | some inp => exact recvRsp_waits h

/-- While the updater waits, `_rsp` is all that has been received, whatever the chunks. -/
theorem awaiting_received : ∀ {es : List UpdaterPoll} {rsp rsp' : Bytes},
    awaiting junk host es rsp = some rsp' → rsp' = rsp ++ (es.map received).flatten
  | [], rsp, rsp', h => by
      cases h
      simp
  | e :: es, rsp, rsp', h => by
      rw [awaiting] at h
      split at h
      · rename_i hwaits
        rw [awaiting_received h, onEvents_waits hwaits, List.map_cons, List.flatten_cons, List.append_assoc]
      · cases h

/-- At the end of file, before the first reply is complete: a bad byte is noticed, the end is
not. -/
theorem recvRsp_eof (junk : ℕ → ℕ → ℕ → ℤ) (host : Bytes) (heof : inp.ended = .eof)
    (hnone : ¬ ReplyComplete (rsp ++ inp.bytes) inp.guard) :
    (recvRsp junk host rsp inp).2 = .bad ∧ ReplyBroken (rsp ++ inp.bytes) inp.guard ∨
    ((recvRsp junk host rsp inp).2 = .more ∨ (recvRsp junk host rsp inp).2 = .threw .undefined) ∧
      ¬ ReplyBroken (rsp ++ inp.bytes) inp.guard := by
  have hbad := splitServerResponse_bad_iff hnone
  have hread : readInto rsp inp = (rsp ++ inp.bytes, none) := by
    rw [readInto, heof]
  unfold recvRsp
  rw [hread]
  dsimp only
  cases hsplit : splitServerResponse (rsp ++ inp.bytes) inp.guard with
  | split rest rsps =>
      obtain rfl := splitServerResponse_incomplete hnone hsplit
      refine Or.inr ⟨Or.inl rfl, fun hbroken => ?_⟩
      obtain ⟨e, he⟩ := hbad.mpr hbroken
      rw [hsplit] at he
      cases he
  | failed e out =>
      have hout : out = [] := by
        unfold splitServerResponse at hsplit
        split at hsplit <;> cases hsplit
        rfl
      rw [hsplit, hout] at hbad
      cases e with
      | bad b => exact Or.inl ⟨rfl, hbad.mp ⟨b, rfl⟩⟩
      | _ =>
          refine Or.inr ⟨Or.inr rfl, fun hbroken => ?_⟩
          obtain ⟨b, hb⟩ := hbad.mpr hbroken
          cases hb

end UpdaterPoll

namespace Updaters

variable {x : Updaters} {fullCov : Bool}

/-- An updater that has not been closed has no map. -/
def Blank (x : Updaters) : Prop := ∀ u, (x.objects u).closed = false → (x.objects u).covered = 0

theorem moveClosed_objects (u : UpdaterId) : (x.moveClosedSlotUpdaters.objects u).closed = (x.objects u).closed ∧
    (x.moveClosedSlotUpdaters.objects u).covered = (x.objects u).covered := by
  unfold moveClosedSlotUpdaters
  dsimp only
  split <;> exact ⟨rfl, rfl⟩

/-- A notification changes neither the flag nor the map of an updater. -/
theorem updateSlotMapFailed_objects (x : Updaters) (fullCov : Bool) (u : UpdaterId) :
    ((x.updateSlotMapFailed fullCov).1.objects u).closed = (x.objects u).closed ∧
    ((x.updateSlotMapFailed fullCov).1.objects u).covered = (x.objects u).covered := by
  unfold updateSlotMapFailed
  split
  · exact ⟨rfl, rfl⟩
  · exact moveClosed_objects u

theorem finish_objects (x : Updaters) (fullCov : Bool) (p : UpdaterId × Option (List RedisNode)) (u : UpdaterId) :
    ((x.finish fullCov p.1 p.2).1.objects u).closed = ((x.closing p).objects u).closed ∧
    ((x.finish fullCov p.1 p.2).1.objects u).covered = ((x.closing p).objects u).covered := by
  rw [finish_eq]
  split
  · exact ⟨rfl, rfl⟩
  · unfold notifySlotMapUpdated
    split
    · exact updateSlotMapFailed_objects _ fullCov u
    · exact moveClosed_objects u

theorem closing_closed (p : UpdaterId × Option (List RedisNode)) : ((x.closing p).objects p.1).closed = true := by
  obtain ⟨u, _ | nodes⟩ := p <;> simp [closing, close, set]

theorem Blank.finish (h : x.Blank) (u : UpdaterId) (answer : Option (List RedisNode)) :
    (x.finish fullCov u answer).1.Blank := by
  intro v hopen
  obtain ⟨hclosed, hcovered⟩ := finish_objects x fullCov (u, answer) v
  rw [hclosed] at hopen
  rw [hcovered]
  by_cases hv : v = u
  · rw [hv, closing_closed (u, answer)] at hopen
    cases hopen
  · rw [closing_of_ne hv] at hopen ⊢
    exact h v hopen

theorem Blank.updateSlotMapFailed (h : x.Blank) : (x.updateSlotMapFailed fullCov).1.Blank := by
  intro v hopen
  obtain ⟨hclosed, hcovered⟩ := updateSlotMapFailed_objects x fullCov v
  rw [hclosed] at hopen
  rw [hcovered]
  exact h v hopen

end Updaters

namespace World

variable {cfg : Config} {w : World}

theorem blank_newUpdater (h : w.updaters.Blank) : (w.newUpdater cfg).updaters.Blank := by
  intro v hopen
  unfold newUpdater at hopen ⊢
  dsimp only at hopen ⊢
  by_cases hv : v = w.updaters.count
  · rw [hv, Function.update_self]
    rfl
  · rw [Function.update_of_ne hv] at hopen ⊢
    exact h v hopen

theorem Reached.blank (h : Reached cfg w) : w.updaters.Blank :=
  h.of_updaters (fun _ _ => rfl) <|
    rules_of_updaters (fun h u answer => h.finish u answer) (fun h => h.updateSlotMapFailed) blank_newUpdater id

theorem foldl_serverCall_updaters : ∀ (cs : List ServerCall) (w : World),
    (cs.foldl (serverCall cfg) w).updaters = w.updaters
  | [], _ => rfl
  | c :: cs, w => by
      rw [List.foldl_cons, foldl_serverCall_updaters cs]
      cases c <;> rfl

theorem outcome_updaters (connects : ℕ → Connect) (w : World) (o : Option Outcome) :
    (w.outcome cfg connects o).1.updaters = w.updaters := by
  have hroute : ∀ x, (w.reroute cfg x).updaters = w.updaters := fun x => foldl_serverCall_updaters _ _
  cases o with
  | none => rfl
  | some o =>
      cases o with
      | install nodes remotes =>
          unfold outcome setSlotMap
          dsimp only
          split
          · rfl
          · rw [(calm_pollServers _ _).updaters, (calm_retryEach _ _).updaters]
            exact hroute _
      | clusterDown =>
          unfold outcome clusterDown
          dsimp only
          have hclear := hroute (w.routes.clear fun s => cfg.rank (.server s))
          generalize w.reroute cfg (w.routes.clear fun s => cfg.rank (.server s)) = w' at hclear
          rw [← hclear]
          exact (calm_foldl (fun w k => calm_respond k clusterDownRsp true w) _ _).updaters

/-- `u` has closed its connection and told the proxy, once, that it has no map. -/
structure GivesUp (cfg : Config) (u : UpdaterId) (connects : ℕ → Connect) (w : World)
    (r : World × Option ConnThrow) : Prop where
  closed : (r.1.updaters.objects u).closed = true
  told : r = outcome cfg connects { w with
      updaters := ((w.updaters.close u).updateSlotMapFailed cfg.fullCov).1
      poller := w.poller.del (.updater u)
      descriptors := w.descriptors.close (.updater u) }
    ((w.updaters.close u).updateSlotMapFailed cfg.fullCov).2

/-- What an event of an updater comes to. -/
def updaterPolled (cfg : Config) (u : UpdaterId) (connects : ℕ → Connect) (w : World) :
    Option Reply → World × Option ConnThrow
  | none => (w, none)
  | some reply => w.updaterEvent cfg u reply connects

/-- An updater that fails while its round lasts. -/
theorem givesUp_notifyUpdated (hw : Reached cfg w) {u : UpdaterId} (hu : u ∈ w.updaters.slotUpdaters)
    (hopen : (w.updaters.objects u).closed = false) (connects : ℕ → Connect) :
    w.GivesUp cfg u connects (w.notifyUpdated cfg u none connects) := by
  have hflag := hw.updaters.flag u hu
  have hcovered := hw.blank u hopen
  have hfinish : w.updaters.finish cfg.fullCov u none = (w.updaters.close u).updateSlotMapFailed cfg.fullCov := by
    rw [Updaters.finish_eq (p := (u, none)), Updaters.closing_flag, hflag, if_neg (by decide),
      Updaters.notifySlotMapUpdated, if_pos]
    · rfl
    · rw [show ((w.updaters.closing (u, none)).objects u).covered = (w.updaters.objects u).covered by
        simp [Updaters.closing, Updaters.close, Updaters.set], hcovered]
      decide
  refine ⟨?_, ?_⟩
  · unfold notifyUpdated
    rw [outcome_updaters]
    dsimp only
    rw [(Updaters.finish_objects _ _ (u, none) u).1]
    exact Updaters.closing_closed (u, none)
  · unfold notifyUpdated
    rw [hfinish]

/-- An updater that reads an end of file before it has a complete reply finishes, and tells the proxy
so, if and only if the event says that the remote has hung up or the bytes are malformed. -/
theorem updater_end_of_stream_iff (hw : Reached cfg w) {u : UpdaterId} (hu : u ∈ w.updaters.slotUpdaters)
    (hopen : (w.updaters.objects u).closed = false) (connects : ℕ → Connect) (junk : ℕ → ℕ → ℕ → ℤ)
    (host : Bytes) {es : List UpdaterPoll} {rsp : Bytes} (hes : UpdaterPoll.awaiting junk host es [] = some rsp)
    {e : UpdaterPoll} {inp : Input} (hwrite : e.write = none) (hread : e.read = some inp)
    (heof : inp.ended = .eof)
    (hnone : ¬ ReplyComplete ((es.map UpdaterPoll.received).flatten ++ inp.bytes) inp.guard) :
    w.GivesUp cfg u connects (w.updaterPolled cfg u connects (e.onEvents junk host rsp).2) ↔
      e.hup = true ∨ ReplyBroken ((es.map UpdaterPoll.received).flatten ++ inp.bytes) inp.guard := by
  have hrsp := UpdaterPoll.awaiting_received hes
  rw [List.nil_append] at hrsp
  rw [← hrsp] at hnone ⊢
  have hgives := givesUp_notifyUpdated hw hu hopen connects
  -- whatever leaves the updaters as they are has not finished this one
  have hstays : ∀ r : World × Option ConnThrow, r.1.updaters = w.updaters → ¬ w.GivesUp cfg u connects r := by
    intro r hr h
    have hclosed := h.closed
    rw [hr, hopen] at hclosed
    cases hclosed
  by_cases hhup : e.hup = true
  · unfold UpdaterPoll.onEvents
    rw [if_pos hhup]
    exact ⟨fun _ => Or.inl hhup, fun _ => hgives⟩
  · unfold UpdaterPoll.onEvents
    rw [if_neg hhup, hwrite, hread]
    dsimp only [updaterPolled]
    rcases UpdaterPoll.recvRsp_eof junk host heof hnone with ⟨hbad, hbroken⟩ | ⟨hreply, hbroken⟩
    · rw [hbad]
      exact ⟨fun _ => Or.inr hbroken, fun _ => hgives⟩
    · refine iff_of_false ?_ (fun h => h.elim hhup hbroken)
      rcases hreply with hreply | hreply
      · rw [hreply]
        exact hstays _ (calm_pollMod ..).updaters
      · rw [hreply]
        exact hstays _ rfl

/-- A proxy that asks one remote for the slot map. -/
def fetching : List Step := [.start, .pollCtl, .update [(⟨ascii "h", 6379⟩, .opened)] fun _ => .opened]

/-- The request has been sent, and a part of the answer has come. -/
def partAnswer : List UpdaterPoll := [⟨false, some none, none⟩, ⟨false, none, some ⟨ascii "$5\r", .again, 0⟩⟩]

/-- The second part begins a string with the wrong byte, and the remote is gone. -/
theorem updater_end_of_stream_malformed :
    ((new plainConfig).steps plainConfig fetching).1.GivesUp plainConfig 0 (fun _ => .opened)
      (((new plainConfig).steps plainConfig fetching).1.updaterPolled plainConfig 0 (fun _ => .opened)
        (UpdaterPoll.onEvents (fun _ _ _ => 0) (ascii "h") [] ⟨false, none, some ⟨ascii "?5\r\nab", .eof, 0⟩⟩).2) := by
  have hrun : ((new plainConfig).steps plainConfig fetching).2 = none ∧
      0 ∈ ((new plainConfig).steps plainConfig fetching).1.updaters.slotUpdaters ∧
      (((new plainConfig).steps plainConfig fetching).1.updaters.objects 0).closed = false := by decide +kernel
  have hbad : tokenAt (ascii "?5\r\nab") 0 0 = .error (.bad (.token (chr '?'))) := by decide +kernel
  have hstuck : ∀ t, tokenAt (ascii "?5\r\nab") 0 0 ≠ .ok t := by
    intro t ht
    rw [hbad] at ht
    cases ht
  have hes : UpdaterPoll.awaiting (fun _ _ _ => 0) (ascii "h") [⟨false, some none, none⟩] [] = some [] := rfl
  refine (updater_end_of_stream_iff (Reached.steps fetching .refl hrun.1) hrun.2.1 hrun.2.2 _ _ (ascii "h")
    hes rfl rfl rfl ?_).mpr (Or.inr ?_)
  · exact not_replyComplete_of_stuck hstuck
  · exact ⟨0, [], _, .start, hbad⟩

/-- The rest of the answer never comes: the remote is gone, and the updater waits for it. -/
theorem updater_end_of_stream_waits :
    UpdaterPoll.awaiting (fun _ _ _ => 0) (ascii "h") partAnswer [] = some (ascii "$5\r") ∧
    ¬ ReplyComplete (ascii "$5\r\nab") 0 ∧
    ((new plainConfig).steps plainConfig fetching).2 = none ∧
    0 ∈ ((new plainConfig).steps plainConfig fetching).1.updaters.slotUpdaters ∧
    (((new plainConfig).steps plainConfig fetching).1.updaters.objects 0).closed = false ∧
    ((((new plainConfig).steps plainConfig fetching).1.updaterPolled plainConfig 0 (fun _ => .opened)
      (UpdaterPoll.onEvents (fun _ _ _ => 0) (ascii "h") (ascii "$5\r")
        ⟨false, none, some ⟨ascii "\nab", .eof, 0⟩⟩).2).1.updaters.objects 0).closed = false := by
  have hmore : tokenAt (ascii "$5\r\nab") 0 0 = .error .interrupted := by decide +kernel
  refine ⟨by decide +kernel, not_replyComplete_of_stuck fun t ht => ?_, by decide +kernel⟩
  rw [hmore] at ht
  cases ht

end World

end Cerberus
