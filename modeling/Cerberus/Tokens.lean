import Cerberus.Message

/-! # Parsing as a flat run over tokens

`parse` descends into arrays, but the positions it visits do not depend on the nesting: the
loop over the elements stops early only at the end of the buffer, and `split_by` goes on
where it stopped.  So `split_by` is a run of `tokenStep`, which handles one integer, string,
nil, error or array header and moves on.

* Soundness (`parse_steps`, `splitLoop_steps`): whatever the recursion returns or throws, the
  flat run returns or throws, up to the entries `Call.parsed` of the record.
* Completeness (`splitLoop_halts`): if the flat run ends within `n` steps then `2 * n + 2`
  units of fuel are enough for the recursion. -/

namespace Cerberus

/-- One token with the positions `parse` takes from it. -/
inductive Token where
  | int (next : ℤ)
  | str (first next : ℤ)
  | arr (size next : ℤ)
  | nil (next : ℤ)
  | err (first next : ℤ)
deriving DecidableEq, Repr

def Token.next : Token → ℤ
  | int n => n
  | str _ n => n
  | arr _ n => n
  | nil n => n
  | err _ n => n

/-- The token that starts at `pos`. -/
def tokenAt (buf : Bytes) (guard : Byte) (pos : ℤ) : Except Stop Token :=
  match deref buf pos with
  | none => .error .overrun
  | some b =>
      if b = chr ':' then (btoi buf guard (pos + 1)).map (fun r => .int r.2)
      else if b = chr '+' then (parseSimpleStr buf (pos + 1)).map (.str (pos + 1))
      else if b = chr '$' then
        if deref buf (pos + 1) = some (chr '-') then (passNil buf (pos + 1 + 1)).map .nil
        else (btou buf (pos + 1)).bind fun r => (parseStr buf r.1 r.2).map (.str r.2)
      else if b = chr '*' then
        if deref buf (pos + 1) = some (chr '-') then (passNil buf (pos + 1 + 1)).map .nil
        else (btou buf (pos + 1)).map (fun r => .arr r.1 r.2)
      else if b = chr '-' then (parseSimpleStr buf (pos + 1)).map (.err (pos + 1))
      else .error (.bad (.token b))

namespace Splitter
variable {σ : Type}

/-- The record without the positions `parse` returned. -/
def ranges (s : Splitter σ) : Splitter σ :=
  { s with calls := s.calls.filter (fun c => match c with | .parsed _ _ => false | _ => true) }

@[simp] theorem ranges_interrupted (s : Splitter σ) : s.ranges.interrupted = s.interrupted := rfl
@[simp] theorem ranges_splitPoints (s : Splitter σ) : s.ranges.splitPoints = s.splitPoints := rfl
@[simp] theorem ranges_nested (s : Splitter σ) :
    s.ranges.nestedArrayElementCount = s.nestedArrayElementCount := rfl
@[simp] theorem ranges_final (s : Splitter σ) : s.ranges.final = s.final := rfl
@[simp] theorem ranges_interruptPoint (s : Splitter σ) :
    s.ranges.interruptPoint = s.interruptPoint := rfl

@[simp] theorem ranges_ranges (s : Splitter σ) : s.ranges.ranges = s.ranges := by
  simp [ranges, List.filter_filter]

@[simp] theorem ranges_record_parsed (s : Splitter σ) (a b : ℤ) :
    (s.record (.parsed a b)).ranges = s.ranges := by
  simp [ranges, record]

theorem ranges_record_string (s : Splitter σ) (a b : ℤ) :
    (s.record (.string a b)).ranges = s.ranges.record (.string a b) := by
  simp [ranges, record]

theorem ranges_record_error (s : Splitter σ) (a b : ℤ) :
    (s.record (.error a b)).ranges = s.ranges.record (.error a b) := by
  simp [ranges, record]

theorem ranges_new (p : ℤ) (f : σ) : (new p f).ranges = new p f := rfl

end Splitter

namespace Result
variable {σ α β : Type}

/-- The result with `f` applied to its state. -/
def mapState (f : σ → σ) : Result σ α → Result σ α
  | ok a s => ok a (f s)
  | throw e s => throw e (f s)

@[simp] theorem mapState_ok (f : σ → σ) (a : α) (s : σ) : (ok a s).mapState f = ok a (f s) := rfl
@[simp] theorem mapState_throw (f : σ → σ) (e : Stop) (s : σ) :
    (throw e s : Result σ α).mapState f = throw e (f s) := rfl

theorem mapState_bind (f : σ → σ) (r : Result σ α) {k g : α → σ → Result σ β}
    (h : ∀ a s, (k a s).mapState f = g a (f s)) :
    (r.bind k).mapState f = (r.mapState f).bind g := by
  cases r with
  | ok a s => exact h a s
  | throw e s => rfl

theorem mapState_lift (f : σ → σ) (s : σ) (r : Except Stop α) :
    (lift s r).mapState f = lift (f s) r := by
  cases r <;> rfl

end Result

section run
variable {σ : Type} (H : Hooks σ) (buf : Bytes) (guard : Byte)

/-- What the splitter does with a token. -/
def onToken : Token → Splitter σ → Result (Splitter σ) ℤ
  | .int next, s => s.onInt H buf next
  | .str first next, s =>
      let s := s.record (.string first (next - lengthOfCrLf))
      (s.hook (H.onString buf first (next - lengthOfCrLf) s.final)).bind fun _ s =>
      (s.onElement H buf next).bind fun _ s => .ok next s
  | .arr size next, s => (s.onArr H buf size next).bind fun _ s => .ok next s
  | .nil next, s => s.onNil H buf next
  | .err first next, s =>
      let s := s.record (.error first (next - lengthOfCrLf))
      (s.hook (H.onError buf first (next - lengthOfCrLf) s.final)).bind fun _ s =>
      (s.onElement H buf next).bind fun _ s => .ok next s

/-- One step of the flat run. -/
def tokenStep (pos : ℤ) (s : Splitter σ) : Result (Splitter σ) ℤ :=
  (Result.lift s (tokenAt buf guard pos)).bind (onToken H buf)

/-- `Steps pos s pos' s'`: the flat run gets from `pos` and `s` to `pos'` and `s'`. -/
inductive Steps : ℤ → Splitter σ → ℤ → Splitter σ → Prop
  | refl (pos : ℤ) (s : Splitter σ) : Steps pos s pos s
  | step {pos pos₁ pos₂ : ℤ} {s s₁ s₂ : Splitter σ} :
      pos ≠ buf.length → tokenStep H buf guard pos s = .ok pos₁ s₁ →
      Steps pos₁ s₁ pos₂ s₂ → Steps pos s pos₂ s₂

/-- The flat run from `pos` and `s` throws `e` in state `s'`. -/
def StepsStop (pos : ℤ) (s : Splitter σ) (e : Stop) (s' : Splitter σ) : Prop :=
  ∃ p t, Steps H buf guard pos s p t ∧ p ≠ buf.length ∧ tokenStep H buf guard p t = .throw e s'

/-- The flat run from `pos` and `s` ends within `n` steps. -/
def HaltsIn : ℕ → ℤ → Splitter σ → Prop
  | n, pos, s => pos = buf.length ∨ (match n with
      | 0 => False
      | n + 1 => match tokenStep H buf guard pos s with
          | .ok pos₁ s₁ => HaltsIn n pos₁ s₁
          | .throw e _ => e ≠ .fuel)

variable {H buf guard}

theorem Steps.trans {p q r : ℤ} {s t u : Splitter σ} (h₁ : Steps H buf guard p s q t)
    (h₂ : Steps H buf guard q t r u) : Steps H buf guard p s r u := by
  induction h₁ with
  | refl => exact h₂
  | step hp hs _ ih => exact Steps.step hp hs (ih h₂)

theorem Steps.stop {p q : ℤ} {s t u : Splitter σ} {e : Stop} (h₁ : Steps H buf guard p s q t)
    (h₂ : StepsStop H buf guard q t e u) : StepsStop H buf guard p s e u := by
  obtain ⟨p', t', hr, hne, ht⟩ := h₂
  exact ⟨p', t', h₁.trans hr, hne, ht⟩

/-- The flat run is deterministic: what is reached at the end of the buffer is reached from
every state on the way. -/
theorem Steps.end_of_steps {p q : ℤ} {s t u : Splitter σ} (h₁ : Steps H buf guard p s q t)
    (h₂ : Steps H buf guard p s buf.length u) : Steps H buf guard q t buf.length u := by
  induction h₁ with
  | refl => exact h₂
  | step hp hs _ ih =>
      cases h₂ with
      | refl => exact absurd rfl hp
      | step _ hs' hr =>
          rw [hs] at hs'
          cases hs'
          exact ih hr

theorem Steps.stop_of_steps {p q : ℤ} {s t u : Splitter σ} {e : Stop}
    (h₁ : Steps H buf guard p s q t) (h₂ : StepsStop H buf guard p s e u) :
    StepsStop H buf guard q t e u := by
  induction h₁ with
  | refl => exact h₂
  | step hp hs _ ih =>
      obtain ⟨p', t', hr, hne, ht⟩ := h₂
      refine ih ?_
      cases hr with
      | refl => rw [hs] at ht; cases ht
      | step _ hs' hr =>
          rw [hs] at hs'
          cases hs'
          exact ⟨p', t', hr, hne, ht⟩

theorem Steps.of_end {q : ℤ} {t u : Splitter σ} (h : Steps H buf guard buf.length t q u) :
    q = buf.length ∧ u = t := by
  cases h with
  | refl => exact ⟨rfl, rfl⟩
  | step hne => exact absurd rfl hne

theorem Steps.end_unique {p : ℤ} {s t u : Splitter σ} (h₁ : Steps H buf guard p s buf.length t)
    (h₂ : Steps H buf guard p s buf.length u) : u = t :=
  (h₁.end_of_steps h₂).of_end.2

theorem Steps.end_not_stop {p : ℤ} {s t u : Splitter σ} {e : Stop}
    (h₁ : Steps H buf guard p s buf.length t) : ¬StepsStop H buf guard p s e u := by
  intro h₂
  obtain ⟨p', t', hr, hne, -⟩ := h₁.stop_of_steps h₂
  exact hne hr.of_end.1

theorem StepsStop.unique {p : ℤ} {s t u : Splitter σ} {e e' : Stop}
    (h₁ : StepsStop H buf guard p s e t) (h₂ : StepsStop H buf guard p s e' u) : e' = e ∧ u = t := by
  obtain ⟨p₁, t₁, hr, hne, ht⟩ := h₁
  obtain ⟨p₂, t₂, hr₂, -, ht₂⟩ := hr.stop_of_steps h₂
  cases hr₂ with
  | refl => rw [ht] at ht₂; cases ht₂; exact ⟨rfl, rfl⟩
  | step _ hs => rw [ht] at hs; cases hs

/-! ### The record does not influence the run -/

theorem onElement_ranges (next : ℤ) (s : Splitter σ) :
    s.ranges.onElement H buf next = (s.onElement H buf next).mapState Splitter.ranges := by
  simp only [Splitter.onElement, Splitter.ranges_nested]
  by_cases h : (Splitter.countDown s.nestedArrayElementCount).2 = true
  · simp only [h, if_true, Splitter.interruptPoint, Splitter.ranges_final,
      Splitter.ranges_splitPoints]
    cases H.onSplitPoint buf (s.splitPoints.getLastD 0) next s.final <;> rfl
  · simp only [h]
    rfl

theorem hook_ranges (s : Splitter σ) (r : Except Stop σ) :
    s.ranges.hook r = (s.hook r).mapState Splitter.ranges := by
  cases r <;> rfl

theorem ok_ranges (a : ℤ) (s : Splitter σ) :
    (Result.ok a s.ranges : Result (Splitter σ) ℤ) = (Result.ok a s).mapState Splitter.ranges := rfl

theorem element_ranges (next : ℤ) (s : Splitter σ) :
    (s.ranges.onElement H buf next).bind (fun _ s => .ok next s) =
      ((s.onElement H buf next).bind fun _ s => .ok next s).mapState Splitter.ranges := by
  rw [onElement_ranges, ← Result.mapState_bind]
  exact fun _ _ => rfl

theorem onArr_ranges (size next : ℤ) (s : Splitter σ) :
    s.ranges.onArr H buf size next = (s.onArr H buf size next).mapState Splitter.ranges := by
  simp only [Splitter.onArr, Splitter.ranges_nested, Splitter.ranges_final, hook_ranges]
  rw [← Result.mapState_bind]
  intro _ t
  by_cases h : size = 0
  · simp only [h, if_true]
    exact (onElement_ranges next t).symm
  · simp only [h, if_false]
    rfl

theorem onToken_ranges (t : Token) (s : Splitter σ) :
    onToken H buf t s.ranges = (onToken H buf t s).mapState Splitter.ranges := by
  cases t with
  | int next => exact element_ranges next s
  | nil next => exact element_ranges next s
  | str first next =>
      simp only [onToken, ← Splitter.ranges_record_string, hook_ranges, Splitter.ranges_final]
      rw [← Result.mapState_bind]
      exact fun _ t => (element_ranges next t).symm
  | err first next =>
      simp only [onToken, ← Splitter.ranges_record_error, hook_ranges, Splitter.ranges_final]
      rw [← Result.mapState_bind]
      exact fun _ t => (element_ranges next t).symm
  | arr size next =>
      simp only [onToken, onArr_ranges]
      rw [← Result.mapState_bind]
      exact fun _ _ => rfl

variable (H buf guard) in
theorem tokenStep_ranges (pos : ℤ) (s : Splitter σ) :
    tokenStep H buf guard pos s.ranges =
      (tokenStep H buf guard pos s).mapState Splitter.ranges := by
  unfold tokenStep
  rw [Result.mapState_bind (g := onToken H buf) _ _ (fun t s => (onToken_ranges t s).symm),
    Result.mapState_lift]

/-! ### The recursion follows the flat run -/

variable (H buf guard) in
/-- What `parse` does with a token: an array header is followed by the elements. -/
def onTokenDeep (fuel : ℕ) : Token → Splitter σ → Result (Splitter σ) ℤ
  | .arr size next, s =>
      (s.onArr H buf size next).bind fun _ s => parseElements H buf guard fuel size next s
  | t, s => onToken H buf t s

theorem onTokenDeep_arr (fuel : ℕ) (size next : ℤ) (s : Splitter σ) :
    onTokenDeep H buf guard fuel (.arr size next) s = (onToken H buf (.arr size next) s).bind
      fun next s => parseElements H buf guard fuel size next s := by
  simp only [onTokenDeep, onToken]
  cases s.onArr H buf size next <;> rfl

theorem parse_succ (fuel : ℕ) (start : ℤ) (s : Splitter σ) (h : start ≠ buf.length) :
    parse H buf guard (fuel + 1) start s =
      ((Result.lift s (tokenAt buf guard start)).bind (onTokenDeep H buf guard fuel)).bind
        fun next s => .ok next (s.record (.parsed start next)) := by
  rw [parse, if_neg h]
  unfold tokenAt
  cases deref buf start with
  | none => rfl
  | some b =>
      dsimp only
      congr 1
      by_cases h₁ : b = chr ':'
      · simp only [h₁, if_true]
        cases btoi buf guard (start + 1) <;> rfl
      by_cases h₂ : b = chr '+'
      · simp only [h₂, if_true, Splitter.onSstr]
        cases parseSimpleStr buf (start + 1) <;> rfl
      by_cases h₃ : b = chr '$'
      · simp only [h₃, if_true]
        by_cases hn : deref buf (start + 1) = some (chr '-')
        · simp only [hn, if_true]
          cases passNil buf (start + 1 + 1) <;> rfl
        · simp only [hn, if_false]
          cases hb : btou buf (start + 1) with
          | error e => rfl
          | ok r =>
              simp only [Splitter.onLstr, Except.bind, Result.lift_ok, Result.bind_ok]
              cases parseStr buf r.1 r.2 <;> rfl
      by_cases h₄ : b = chr '*'
      · simp only [h₄, if_true]
        by_cases hn : deref buf (start + 1) = some (chr '-')
        · simp only [hn, if_true]
          cases passNil buf (start + 1 + 1) <;> rfl
        · simp only [hn, if_false]
          cases btou buf (start + 1) <;> rfl
      by_cases h₅ : b = chr '-'
      · simp only [h₅, if_true, Splitter.onErr]
        cases parseSimpleStr buf (start + 1) <;> rfl
      · simp only [h₁, h₂, h₃, h₄, h₅, if_false]
        rfl

variable (H buf guard) in
/-- What a result says about the flat run from `pos` and `s`; running out of fuel says nothing. -/
def Follows {α : Type} (pos : ℤ) (s : Splitter σ) (reach : α → ℤ) : Result (Splitter σ) α → Prop
  | .ok a s' => Steps H buf guard pos s.ranges (reach a) s'.ranges
  | .throw e s' => e ≠ .fuel → StepsStop H buf guard pos s.ranges e s'.ranges

theorem Follows.bind {α β : Type} {pos : ℤ} {s : Splitter σ} {reach : α → ℤ} {reach' : β → ℤ}
    {r : Result (Splitter σ) α} {k : α → Splitter σ → Result (Splitter σ) β}
    (hr : Follows H buf guard pos s reach r)
    (hk : ∀ a t, Follows H buf guard (reach a) t reach' (k a t)) :
    Follows H buf guard pos s reach' (r.bind k) := by
  cases r with
  | throw e s' => exact hr
  | ok a t =>
      have h := hk a t
      simp only [Result.bind_ok]
      cases hkt : k a t with
      | ok b u => rw [hkt] at h; exact hr.trans h
      | throw e u => rw [hkt] at h; exact fun he => hr.stop (h he)

theorem Follows.of_tokenStep {pos : ℤ} (s : Splitter σ) (hp : pos ≠ buf.length) :
    Follows H buf guard pos s id (tokenStep H buf guard pos s) := by
  have h := tokenStep_ranges H buf guard pos s
  cases ht : tokenStep H buf guard pos s with
  | ok next t => rw [ht] at h; exact Steps.step hp h (Steps.refl _ _)
  | throw e t => rw [ht] at h; exact fun _ => ⟨pos, s.ranges, Steps.refl _ _, hp, h⟩

/-- An array header is one step of the flat run, its elements are the steps after it. -/
theorem Follows.onTokenDeep {fuel : ℕ} {pos : ℤ} {s : Splitter σ} (hp : pos ≠ buf.length)
    (ih : ∀ count pos t, Follows H buf guard pos t id (parseElements H buf guard fuel count pos t)) :
    Follows H buf guard pos s id
      ((Result.lift s (tokenAt buf guard pos)).bind (onTokenDeep H buf guard fuel)) := by
  have h : Follows H buf guard pos s id (tokenStep H buf guard pos s) := .of_tokenStep s hp
  unfold tokenStep at h
  cases ht : tokenAt buf guard pos with
  | error e => rw [ht] at h; exact h
  | ok t =>
      rw [ht] at h
      simp only [Result.lift_ok, Result.bind_ok] at h ⊢
      cases t with
      | arr size next =>
          rw [onTokenDeep_arr]
          exact h.bind (fun next t => ih size next t)
      | int next => exact h
      | str first next => exact h
      | nil next => exact h
      | err first next => exact h

/-- By induction on the fuel: both functions of the recursion follow the flat run. -/
theorem parse_follows : ∀ fuel : ℕ,
    (∀ pos s, Follows H buf guard pos s id (parse H buf guard fuel pos s)) ∧
    (∀ count pos s, Follows H buf guard pos s id (parseElements H buf guard fuel count pos s))
  | 0 => by
      refine ⟨fun pos s => ?_, fun count pos s => ?_⟩
      · rw [parse]; exact fun h => absurd rfl h
      · rw [parseElements]; exact fun h => absurd rfl h
  | fuel + 1 => by
      obtain ⟨ihp, ihe⟩ := parse_follows fuel
      refine ⟨fun pos s => ?_, fun count pos s => ?_⟩
      · by_cases hp : pos = buf.length
        · rw [parse, if_pos hp]; exact Steps.refl _ _
        · rw [parse_succ fuel pos s hp]
          refine (Follows.onTokenDeep hp ihe).bind (fun next t => ?_)
          show Steps H buf guard next t.ranges next (t.record (.parsed pos next)).ranges
          rw [Splitter.ranges_record_parsed]
          exact Steps.refl _ _
      · rw [parseElements]
        split
        · exact (ihp pos s).bind (fun pos t => ihe (count - 1) pos t)
        · exact Steps.refl _ _

variable (H buf guard) in
theorem splitLoop_follows : ∀ (fuel : ℕ) (pos : ℤ) (s : Splitter σ),
    Follows H buf guard pos s (fun _ => (buf.length : ℤ)) (splitLoop H buf guard fuel pos s)
  | 0, pos, s => fun h => absurd rfl h
  | fuel + 1, pos, s => by
      rw [splitLoop]
      split
      · rename_i h; subst h; exact Steps.refl _ _
      · exact ((parse_follows fuel).1 pos s).bind (fun pos t => splitLoop_follows fuel pos t)

/-! ### Enough fuel -/

theorem HaltsIn.at_end (n : ℕ) (s : Splitter σ) : HaltsIn H buf guard n buf.length s := by
  unfold HaltsIn; exact Or.inl rfl

theorem HaltsIn.succ {n : ℕ} {pos : ℤ} {s : Splitter σ} (hp : pos ≠ buf.length)
    (h : HaltsIn H buf guard n pos s) : ∃ m, n = m + 1 ∧
      (match tokenStep H buf guard pos s with
        | .ok pos₁ s₁ => HaltsIn H buf guard m pos₁ s₁
        | .throw e _ => e ≠ .fuel) := by
  unfold HaltsIn at h
  rcases h with h | h
  · exact absurd h hp
  · cases n with
    | zero => exact h.elim
    | succ m => exact ⟨m, rfl, h⟩

variable (H buf guard) in
/-- The result is not for want of fuel, and what it leaves of the run ends within `n` steps. -/
def Fuelled {α : Type} (n : ℕ) (reach : α → ℤ) : Result (Splitter σ) α → Prop
  | .ok a s' => ∃ m ≤ n, HaltsIn H buf guard m (reach a) s'.ranges
  | .throw e _ => e ≠ .fuel

theorem Fuelled.bind {α β : Type} {n k : ℕ} {reach : α → ℤ} {reach' : β → ℤ}
    {r : Result (Splitter σ) α} {f : α → Splitter σ → Result (Splitter σ) β}
    (hr : Fuelled H buf guard n reach r)
    (hf : ∀ m ≤ n, ∀ a t, HaltsIn H buf guard m (reach a) t.ranges →
      Fuelled H buf guard k reach' (f a t)) :
    Fuelled H buf guard k reach' (r.bind f) := by
  cases r with
  | throw e s => exact hr
  | ok a t =>
      obtain ⟨m, hm, h⟩ := hr
      exact hf m hm a t h

theorem Fuelled.mono {α : Type} {n k : ℕ} {reach : α → ℤ} {r : Result (Splitter σ) α}
    (hr : Fuelled H buf guard n reach r) (h : n ≤ k) : Fuelled H buf guard k reach r := by
  cases r with
  | throw e s => exact hr
  | ok a t =>
      obtain ⟨m, hm, hh⟩ := hr
      exact ⟨m, by omega, hh⟩

/-- One token uses up one of the steps that are left. -/
theorem Fuelled.of_haltsIn {n : ℕ} {pos : ℤ} {s : Splitter σ} (hp : pos ≠ buf.length)
    (h : HaltsIn H buf guard n pos s.ranges) :
    ∃ m, n = m + 1 ∧ Fuelled H buf guard m id (tokenStep H buf guard pos s) := by
  obtain ⟨m, rfl, hm⟩ := h.succ hp
  refine ⟨m, rfl, ?_⟩
  rw [tokenStep_ranges] at hm
  cases ht : tokenStep H buf guard pos s with
  | throw e t => rw [ht] at hm; exact hm
  | ok next t => rw [ht] at hm; exact ⟨m, le_rfl, hm⟩

theorem Fuelled.onTokenDeep {fuel n : ℕ} {pos : ℤ} {s : Splitter σ} (hp : pos ≠ buf.length)
    (h : HaltsIn H buf guard (n + 1) pos s.ranges)
    (ih : ∀ m ≤ n, ∀ count pos t, HaltsIn H buf guard m pos t.ranges →
      Fuelled H buf guard m id (parseElements H buf guard fuel count pos t)) :
    Fuelled H buf guard n id
      ((Result.lift s (tokenAt buf guard pos)).bind (onTokenDeep H buf guard fuel)) := by
  obtain ⟨m, hm, h⟩ := Fuelled.of_haltsIn hp h
  obtain rfl : n = m := by omega
  unfold tokenStep at h
  cases ht : tokenAt buf guard pos with
  | error e => rw [ht] at h; exact h
  | ok t =>
      rw [ht] at h
      simp only [Result.lift_ok, Result.bind_ok] at h ⊢
      cases t with
      | arr size next =>
          rw [onTokenDeep_arr]
          exact h.bind (fun m hm a t ht => (ih m hm size a t ht).mono hm)
      | int next => exact h
      | str first next => exact h
      | nil next => exact h
      | err first next => exact h

/-- A run of `n` steps needs `2 * n + 1` units of fuel in `parse` and one more in the loop
over the elements: every token costs one call of either. -/
theorem parse_fuelled : ∀ fuel : ℕ,
    (∀ n pos s, 2 * n + 1 ≤ fuel → HaltsIn H buf guard n pos s.ranges →
      Fuelled H buf guard (n - 1) id (parse H buf guard fuel pos s)) ∧
    (∀ n count pos s, 2 * n + 2 ≤ fuel → HaltsIn H buf guard n pos s.ranges →
      Fuelled H buf guard n id (parseElements H buf guard fuel count pos s))
  | 0 => ⟨fun n pos s h => absurd h (by omega), fun n count pos s h => absurd h (by omega)⟩
  | fuel + 1 => by
      obtain ⟨ihp, ihe⟩ := parse_fuelled fuel
      refine ⟨fun n pos s hn h => ?_, fun n count pos s hn h => ?_⟩
      · by_cases hp : pos = buf.length
        · rw [parse, if_pos hp]
          subst hp
          exact ⟨n - 1, le_rfl, HaltsIn.at_end _ _⟩
        · rw [parse_succ fuel pos s hp]
          obtain ⟨m, rfl, -⟩ := h.succ hp
          refine (Fuelled.onTokenDeep hp h fun k hk count pos t => ihe k count pos t (by omega)).bind
            (fun k hk next t ht => ⟨k, by omega, ?_⟩)
          rw [Splitter.ranges_record_parsed]
          exact ht
      · rw [parseElements]
        split
        · rename_i hc
          obtain ⟨m, rfl, -⟩ := h.succ hc.2
          refine (ihp (m + 1) pos s (by omega) h).bind fun k hk pos t ht => ?_
          exact (ihe k (count - 1) pos t (by omega) ht).mono (by omega)
        · exact ⟨n, le_rfl, h⟩

variable (H guard) in
theorem splitLoop_fuelled : ∀ (fuel n : ℕ) (pos : ℤ) (s : Splitter σ), 2 * n + 2 ≤ fuel →
    HaltsIn H buf guard n pos s.ranges →
    ∀ s', splitLoop H buf guard fuel pos s ≠ .throw .fuel s'
  | 0, n, pos, s, hn, _, _ => absurd hn (by omega)
  | fuel + 1, n, pos, s, hn, h, s' => by
      rw [splitLoop]
      split
      · simp
      · rename_i hp
        obtain ⟨m, rfl, -⟩ := h.succ hp
        have hf := (parse_fuelled fuel).1 (m + 1) pos s (by omega) h
        cases hr : parse H buf guard fuel pos s with
        | throw e t =>
            rw [hr] at hf
            intro hc
            simp only [Result.bind_throw, Result.throw.injEq] at hc
            exact hf hc.1
        | ok next t =>
            rw [hr] at hf
            obtain ⟨k, hk, ht⟩ := hf
            exact splitLoop_fuelled fuel k next t (by omega) ht s'

end run

end Cerberus
