import Cerberus.Lex

/-! # Progress of the parser

On a buffer with `LengthsOk` every token starts behind the one before it, so `split_by`
ends, every range it hands out lies in the buffer, and `2 * length + 2` units of fuel are
enough.  This holds for every final type whose members accept such ranges (`Hooks.Safe`);
the invariant `Inv pos f` is what the final type needs to know about the positions it has
stored when the parser stands at `pos`.

For `msg::split`, which overrides nothing, the condition is also necessary
(`lengthsOk_of_split`): at a negative length the range handed to `on_string` ends before it
begins. -/

namespace Cerberus

/-- A range handed out lies in the buffer; `parse` returned a later position in it. -/
def CallOk (buf : Bytes) : Call → Prop
  | .string first last => 0 ≤ first ∧ first ≤ last ∧ last ≤ buf.length
  | .error first last => 0 ≤ first ∧ first ≤ last ∧ last ≤ buf.length
  | .parsed start next => 0 ≤ start ∧ start < next ∧ next ≤ buf.length

section
variable {σ : Type}

/-- A member of the final type returned, keeping the invariant, or threw `BadRedisMessage`. -/
def SafeAt (Inv : ℤ → σ → Prop) (pos : ℤ) : Except Stop σ → Prop
  | .ok f => Inv pos f
  | .error e => ∃ b, e = .bad b

/-- The members of the final type accept every range behind the position of the parser. -/
structure Hooks.Safe (H : Hooks σ) (buf : Bytes) (Inv : ℤ → σ → Prop) : Prop where
  mono : ∀ {p q f}, p ≤ q → Inv p f → Inv q f
  onString : ∀ {pos first last f}, Inv pos f → 0 ≤ pos → pos < first → first ≤ last →
    last + lengthOfCrLf ≤ buf.length →
    SafeAt Inv (last + lengthOfCrLf) (H.onString buf first last f)
  onError : ∀ {pos first last f}, Inv pos f → 0 ≤ pos → pos < first → first ≤ last →
    last + lengthOfCrLf ≤ buf.length →
    SafeAt Inv (last + lengthOfCrLf) (H.onError buf first last f)
  onSplitPoint : ∀ {back next f}, Inv next f → 0 ≤ back → back ≤ next → next ≤ buf.length →
    SafeAt Inv next (H.onSplitPoint buf back next f)
  onArray : ∀ {pos empty size f}, Inv pos f → SafeAt Inv pos (H.onArray empty size f)

variable {H : Hooks σ} {buf : Bytes} {guard : Byte} {Inv : ℤ → σ → Prop}

variable (buf Inv) in
/-- The parser stands at the start of a token and everything is in order. -/
structure Good (pos : ℤ) (s : Splitter σ) : Prop where
  start : TokenStart buf (bytesFrom buf pos)
  lo : 0 ≤ pos
  hi : pos ≤ buf.length
  inv : Inv pos s.final
  back : 0 ≤ s.interruptPoint ∧ s.interruptPoint ≤ pos
  calls : ∀ c ∈ s.calls, CallOk buf c

/-- The call threw `BadRedisMessage`. -/
def Stop.Bad (e : Stop) : Prop := ∃ b, e = .bad b

/-- The two exceptions of the source. -/
def Stop.Thrown (e : Stop) : Prop := e = .interrupted ∨ e.Bad

variable (buf Inv) in
/-- A call that moves the parser to `lo` or further, or stops for a reason `P` allows. -/
def GoodResult (P : Stop → Prop) (lo : ℤ) : Result (Splitter σ) ℤ → Prop
  | .ok next s => lo ≤ next ∧ Good buf Inv next s
  | .throw e s => P e ∧ ∀ c ∈ s.calls, CallOk buf c

theorem GoodResult.bind {P : Stop → Prop} {lo : ℤ} {r : Result (Splitter σ) ℤ}
    {k : ℤ → Splitter σ → Result (Splitter σ) ℤ} (hr : GoodResult buf Inv P lo r)
    (hk : ∀ next s, lo ≤ next → Good buf Inv next s → GoodResult buf Inv P lo (k next s)) :
    GoodResult buf Inv P lo (r.bind k) := by
  cases r with
  | ok next s => exact hk next s hr.1 hr.2
  | throw e s => exact hr

theorem GoodResult.mono {P Q : Stop → Prop} {lo lo' : ℤ} {r : Result (Splitter σ) ℤ}
    (hr : GoodResult buf Inv P lo r) (h : lo' ≤ lo) (hPQ : ∀ e, P e → Q e) :
    GoodResult buf Inv Q lo' r := by
  cases r with
  | ok next s => exact ⟨le_trans h hr.1, hr.2⟩
  | throw e s => exact ⟨hPQ e hr.1, hr.2⟩

theorem Stop.Thrown.ne_overrun {e : Stop} (h : e.Thrown) : e ≠ .overrun := by
  rcases h with rfl | ⟨b, rfl⟩ <;> simp

theorem Stop.Thrown.ne_fuel {e : Stop} (h : e.Thrown) : e ≠ .fuel := by
  rcases h with rfl | ⟨b, rfl⟩ <;> simp

/-! ### One token -/

/-- The end of an element, at the start of the next token. -/
theorem onElement_good (hH : H.Safe buf Inv) {lo next : ℤ} {s : Splitter σ} (hlo : lo ≤ next)
    (hs : Good buf Inv next s) :
    GoodResult buf Inv Stop.Bad lo ((s.onElement H buf next).bind fun _ s => .ok next s) := by
  unfold Splitter.onElement
  dsimp only
  split
  · have h := hH.onSplitPoint hs.inv hs.back.1 hs.back.2 hs.hi
    cases hr : H.onSplitPoint buf s.interruptPoint next s.final with
    | error e =>
        rw [hr] at h
        simp only [Splitter.interruptPoint] at hr
        simp only [Splitter.interruptPoint, hr]
        exact ⟨h, hs.calls⟩
    | ok f =>
        rw [hr] at h
        simp only [Splitter.interruptPoint] at hr
        simp only [Splitter.interruptPoint, hr]
        refine ⟨hlo, ⟨hs.start, hs.lo, hs.hi, h, ?_, hs.calls⟩⟩
        simp only [Splitter.interruptPoint, List.getLastD_concat]
        exact ⟨hs.lo, le_rfl⟩
  · exact ⟨hlo, ⟨hs.start, hs.lo, hs.hi, hs.inv, hs.back, hs.calls⟩⟩

theorem hook_good {pos lo : ℤ} {s : Splitter σ} {r : Except Stop σ}
    {k : Unit → Splitter σ → Result (Splitter σ) ℤ} (hcalls : ∀ c ∈ s.calls, CallOk buf c)
    (hr : SafeAt Inv pos r)
    (hk : ∀ f, Inv pos f → GoodResult buf Inv Stop.Bad lo (k () { s with final := f })) :
    GoodResult buf Inv Stop.Bad lo ((s.hook r).bind k) := by
  cases r with
  | error e => exact ⟨hr, hcalls⟩
  | ok f => exact hk f hr

theorem onToken_good (hH : H.Safe buf Inv) {pos : ℤ} {s : Splitter σ} (hs : Good buf Inv pos s)
    {k : Kind} {n : ℕ} (hk : lex (bytesFrom buf pos) = .tok k n) :
    GoodResult buf Inv Stop.Bad (pos + 1) (onToken H buf (k.token pos n) s) := by
  obtain ⟨hn3, hnl, hin⟩ := lex_tok hk
  have hlo := hs.lo
  have hlen : (bytesFrom buf pos).length = buf.length - pos.toNat := by
    rw [bytesFrom, List.length_drop]
  have hnext : pos + n ≤ buf.length := by have := hs.hi; omega
  have hstart : TokenStart buf (bytesFrom buf (pos + n)) := by
    rw [bytesFrom_add hlo rfl n]
    exact hs.start.next hk
  -- the state at the next token, with any record and any final part that keep the invariants
  have hgood : ∀ (t : Splitter σ), t.splitPoints = s.splitPoints → Inv (pos + n) t.final →
      (∀ c ∈ t.calls, CallOk buf c) → Good buf Inv (pos + n) t := by
    intro t ht hf hc
    refine ⟨hstart, by omega, hnext, hf, ?_, hc⟩
    have hb := hs.back
    simp only [Splitter.interruptPoint, ht] at hb ⊢
    omega
  have hrec : ∀ c, CallOk buf c → ∀ c' ∈ (s.record c).calls, CallOk buf c' := by
    intro c hc c' hc'
    simp only [Splitter.record, List.mem_append, List.mem_singleton] at hc'
    rcases hc' with hc' | rfl
    · exact hs.calls c' hc'
    · exact hc
  cases k with
  | int =>
      exact onElement_good hH (by omega) (hgood s rfl (hH.mono (by omega) hs.inv) hs.calls)
  | nil =>
      exact onElement_good hH (by omega) (hgood s rfl (hH.mono (by omega) hs.inv) hs.calls)
  | str t =>
      have ht : t.length + 3 ≤ n := hin.1
      have hc := hrec (.string (pos + n - lengthOfCrLf - t.length) (pos + n - lengthOfCrLf))
        (by unfold CallOk lengthOfCrLf; omega)
      refine hook_good hc ?_ fun f hf =>
        onElement_good hH (by omega) (hgood _ rfl hf hc)
      have := @hH.onString pos (pos + n - lengthOfCrLf - t.length) (pos + n - lengthOfCrLf) _ hs.inv hlo
        (by unfold lengthOfCrLf; omega) (by omega) (by omega)
      rwa [show pos + n - lengthOfCrLf + lengthOfCrLf = pos + n by omega] at this
  | err t =>
      have ht : t.length + 3 ≤ n := hin.1
      have hc := hrec (.error (pos + n - lengthOfCrLf - t.length) (pos + n - lengthOfCrLf))
        (by unfold CallOk lengthOfCrLf; omega)
      refine hook_good hc ?_ fun f hf =>
        onElement_good hH (by omega) (hgood _ rfl hf hc)
      have := @hH.onError pos (pos + n - lengthOfCrLf - t.length) (pos + n - lengthOfCrLf) _ hs.inv hlo
        (by unfold lengthOfCrLf; omega) (by omega) (by omega)
      rwa [show pos + n - lengthOfCrLf + lengthOfCrLf = pos + n by omega] at this
  | arr size =>
      simp only [Kind.token, onToken, Splitter.onArr]
      have ha := @hH.onArray _ s.nestedArrayElementCount.isEmpty size _
        (hH.mono (show pos ≤ pos + n by omega) hs.inv)
      cases hr : H.onArray s.nestedArrayElementCount.isEmpty size s.final with
      | error e => rw [hr] at ha; exact ⟨ha, hs.calls⟩
      | ok f =>
          rw [hr] at ha
          simp only [Splitter.hook, Result.bind_ok]
          split
          · exact onElement_good hH (by omega) (hgood _ rfl ha hs.calls)
          · exact ⟨by omega, hgood _ rfl ha hs.calls⟩

/-- What `parse` finds at the start of a token of a buffer with `LengthsOk`. -/
theorem tokenAt_good (hL : LengthsOk guard buf) {pos : ℤ} {s : Splitter σ}
    (hs : Good buf Inv pos s) (hp : pos ≠ buf.length) :
    (∃ k n, lex (bytesFrom buf pos) = .tok k n ∧ tokenAt buf guard pos = .ok (k.token pos n)) ∨
    (∃ e, tokenAt buf guard pos = .error e ∧ e.Thrown) := by
  have hat := tokenAt_lex guard hs.lo (lt_of_le_of_ne hs.hi hp)
  obtain ⟨hneg, hcol⟩ := hL _ hs.start
  cases hl : lex (bytesFrom buf pos) with
  | tok k n => rw [hl] at hat; exact Or.inl ⟨k, n, rfl, hat⟩
  | more => rw [hl] at hat; exact Or.inr ⟨_, hat, Or.inl rfl⟩
  | bad b => rw [hl] at hat; exact Or.inr ⟨_, hat, Or.inr ⟨_, rfl⟩⟩
  | negative => exact absurd hl hneg
  | colon =>
      rw [hl] at hat
      simp only [Lexed.at, hcol hl, if_false] at hat
      exact Or.inr ⟨_, hat, Or.inl rfl⟩

theorem tokenStep_good (hH : H.Safe buf Inv) (hL : LengthsOk guard buf) {pos : ℤ} {s : Splitter σ}
    (hs : Good buf Inv pos s) (hp : pos ≠ buf.length) :
    GoodResult buf Inv Stop.Thrown (pos + 1) (tokenStep H buf guard pos s) := by
  unfold tokenStep
  rcases tokenAt_good hL hs hp with ⟨k, n, hk, ht⟩ | ⟨e, ht, he⟩
  · rw [ht]; exact (onToken_good hH hs hk).mono le_rfl fun _ => Or.inr
  · rw [ht]; exact ⟨he, hs.calls⟩

/-! ### The whole run -/

theorem onTokenDeep_good (hH : H.Safe buf Inv) (hL : LengthsOk guard buf) {fuel : ℕ} {pos : ℤ}
    {s : Splitter σ} (hs : Good buf Inv pos s) (hp : pos ≠ buf.length)
    (ih : ∀ count pos s, Good buf Inv pos s →
      GoodResult buf Inv (· ≠ .overrun) pos (parseElements H buf guard fuel count pos s)) :
    GoodResult buf Inv (· ≠ .overrun) (pos + 1)
      ((Result.lift s (tokenAt buf guard pos)).bind (onTokenDeep H buf guard fuel)) := by
  have h := (tokenStep_good hH hL hs hp).mono le_rfl fun _ => Stop.Thrown.ne_overrun
  unfold tokenStep at h
  cases ht : tokenAt buf guard pos with
  | error e => rw [ht] at h; exact h
  | ok t =>
      rw [ht] at h
      simp only [Result.lift_ok, Result.bind_ok] at h ⊢
      cases t with
      | arr size next =>
          rw [onTokenDeep_arr]
          exact h.bind fun next t hn hg => (ih size next t hg).mono hn fun _ => id
      | int next => exact h
      | str first next => exact h
      | nil next => exact h
      | err first next => exact h

theorem Good.record_parsed {start next : ℤ} {s : Splitter σ} (hs : Good buf Inv next s)
    (h0 : 0 ≤ start) (h : start < next) : Good buf Inv next (s.record (.parsed start next)) := by
  refine ⟨hs.start, hs.lo, hs.hi, hs.inv, hs.back, fun c hc => ?_⟩
  simp only [Splitter.record, List.mem_append, List.mem_singleton] at hc
  rcases hc with hc | rfl
  · exact hs.calls c hc
  · exact ⟨h0, h, hs.hi⟩

/-- By induction on the fuel: `parse` ends behind its start, the loop not before it. -/
theorem parse_good (hH : H.Safe buf Inv) (hL : LengthsOk guard buf) : ∀ fuel : ℕ,
    (∀ pos s, Good buf Inv pos s → pos ≠ buf.length →
      GoodResult buf Inv (· ≠ .overrun) (pos + 1) (parse H buf guard fuel pos s)) ∧
    (∀ count pos s, Good buf Inv pos s →
      GoodResult buf Inv (· ≠ .overrun) pos (parseElements H buf guard fuel count pos s))
  | 0 => by
      refine ⟨fun pos s hs _ => ?_, fun count pos s hs => ?_⟩
      · rw [parse]; exact ⟨by simp, hs.calls⟩
      · rw [parseElements]; exact ⟨by simp, hs.calls⟩
  | fuel + 1 => by
      obtain ⟨ihp, ihe⟩ := parse_good hH hL fuel
      refine ⟨fun pos s hs hp => ?_, fun count pos s hs => ?_⟩
      · rw [parse_succ fuel pos s hp]
        refine (onTokenDeep_good hH hL hs hp ihe).bind fun next t hn ht => ?_
        exact ⟨hn, ht.record_parsed hs.lo (by omega)⟩
      · rw [parseElements]
        split
        · rename_i hc
          refine ((ihp pos s hs hc.2).mono (by omega) fun _ => id).bind fun next t hn ht => ?_
          exact (ihe (count - 1) next t ht).mono hn fun _ => id
        · exact ⟨le_rfl, hs⟩

theorem splitLoop_good (hH : H.Safe buf Inv) (hL : LengthsOk guard buf) :
    ∀ (fuel : ℕ) (pos : ℤ) (s : Splitter σ), Good buf Inv pos s →
      (∀ t, splitLoop H buf guard fuel pos s ≠ .throw .overrun t) ∧
      ∀ c ∈ (splitLoop H buf guard fuel pos s).state.calls, CallOk buf c
  | 0, pos, s, hs => by rw [splitLoop]; exact ⟨by simp, hs.calls⟩
  | fuel + 1, pos, s, hs => by
      rw [splitLoop]
      split
      · exact ⟨by simp, hs.calls⟩
      · rename_i hp
        have h := (parse_good hH hL fuel).1 pos s hs hp
        cases hr : parse H buf guard fuel pos s with
        | ok next t =>
            rw [hr] at h
            exact splitLoop_good hH hL fuel next t h.2
        | throw e t =>
            rw [hr] at h
            refine ⟨fun u hu => ?_, h.2⟩
            simp only [Result.bind_throw, Result.throw.injEq] at hu
            exact h.1 hu.1

theorem haltsIn_good (hH : H.Safe buf Inv) (hL : LengthsOk guard buf) :
    ∀ (n : ℕ) (pos : ℤ) (s : Splitter σ), Good buf Inv pos s → buf.length - pos ≤ n →
      HaltsIn H buf guard n pos s
  | n, pos, s, hs, hn => by
      unfold HaltsIn
      by_cases hp : pos = buf.length
      · exact Or.inl hp
      · refine Or.inr ?_
        have hhi := hs.hi
        have h := tokenStep_good hH hL hs hp
        cases n with
        | zero => exact hp (by omega)
        | succ n =>
            dsimp only
            cases hr : tokenStep H buf guard pos s with
            | ok next t =>
                rw [hr] at h
                obtain ⟨hlt, hg⟩ := h
                exact haltsIn_good hH hL n next t hg (by push_cast at hn; omega)
            | throw e t =>
                rw [hr] at h
                exact h.1.ne_fuel

theorem good_new (buf : Bytes) {f : σ} (hf : Inv 0 f) : Good buf Inv 0 (.new 0 f) :=
  ⟨by simpa [bytesFrom] using TokenStart.here, le_rfl, by omega, hf, ⟨le_rfl, le_rfl⟩, by simp [Splitter.new]⟩

/-- The loop of `split_by` ends, within the fuel that the length of the buffer gives. -/
theorem splitLoop_ends (hH : H.Safe buf Inv) (hL : LengthsOk guard buf) {f : σ} (hf : Inv 0 f) :
    (∃ s, splitLoop H buf guard (fuelFor buf) 0 (.new 0 f) = .ok () s) ∨
    (∃ e s, splitLoop H buf guard (fuelFor buf) 0 (.new 0 f) = .throw e s ∧ e.Thrown) := by
  have hg := good_new buf hf
  have hfuel := splitLoop_fuelled H guard (fuelFor buf) buf.length 0 (.new 0 f)
    (by unfold fuelFor; omega) (haltsIn_good hH hL _ _ _ hg (by omega))
  have hover := (splitLoop_good hH hL (fuelFor buf) 0 _ hg).1
  cases hr : splitLoop H buf guard (fuelFor buf) 0 (.new 0 f) with
  | ok u s => exact Or.inl ⟨s, rfl⟩
  | throw e s =>
      refine Or.inr ⟨e, s, rfl, ?_⟩
      cases e with
      | interrupted => exact Or.inl rfl
      | bad b => exact Or.inr ⟨b, rfl⟩
      | overrun => exact absurd hr (hover s)
      | fuel => exact absurd hr (hfuel s)

end

/-! ### `msg::split` -/

section split
variable {buf : Bytes} {guard : Byte}

variable (buf) in
theorem onElement_split (next : ℤ) (s : Splitter Unit) :
    ∃ t, s.onElement messageSplitter buf next = .ok () t ∧ t.calls = s.calls := by
  unfold Splitter.onElement
  dsimp only
  split
  · exact ⟨_, rfl, rfl⟩
  · exact ⟨_, rfl, rfl⟩

variable (buf) in
/-- A splitter that overrides nothing takes every token; a string leaves its range behind. -/
theorem onToken_split (t : Token) (s : Splitter Unit) :
    ∃ u, onToken messageSplitter buf t s = .ok t.next u ∧ (∀ c ∈ s.calls, c ∈ u.calls) ∧
      ∀ first next, t = .str first next → .string first (next - lengthOfCrLf) ∈ u.calls := by
  have hel : ∀ (next : ℤ) (s : Splitter Unit),
      ∃ u, ((s.onElement messageSplitter buf next).bind fun _ s => Result.ok next s) = .ok next u ∧
        u.calls = s.calls := by
    intro next s
    obtain ⟨u, hu, hc⟩ := onElement_split buf next s
    exact ⟨u, by rw [hu]; rfl, hc⟩
  cases t with
  | int next =>
      obtain ⟨u, hu, hc⟩ := hel next s
      exact ⟨u, hu, fun c h => hc ▸ h, fun _ _ h => by cases h⟩
  | nil next =>
      obtain ⟨u, hu, hc⟩ := hel next s
      exact ⟨u, hu, fun c h => hc ▸ h, fun _ _ h => by cases h⟩
  | str first next =>
      obtain ⟨u, hu, hc⟩ := hel next (s.record (.string first (next - lengthOfCrLf)))
      refine ⟨u, hu, fun c h => ?_, fun f n h => ?_⟩
      · rw [hc]; exact List.mem_append_left _ h
      · cases h
        rw [hc]; simp [Splitter.record]
  | err first next =>
      obtain ⟨u, hu, hc⟩ := hel next (s.record (.error first (next - lengthOfCrLf)))
      refine ⟨u, hu, fun c h => ?_, fun _ _ h => by cases h⟩
      rw [hc]; exact List.mem_append_left _ h
  | arr size next =>
      simp only [onToken, Splitter.onArr, messageSplitter, Splitter.hook, Result.bind_ok]
      split
      · obtain ⟨u, hu, hc⟩ := hel next s
        exact ⟨u, hu, fun c h => hc ▸ h, fun _ _ h => by cases h⟩
      · exact ⟨_, rfl, fun c h => h, fun _ _ h => by cases h⟩

variable (buf guard) in
theorem tokenStep_calls (pos : ℤ) {s : Splitter Unit} {c : Call} (hc : c ∈ s.calls) :
    c ∈ (tokenStep messageSplitter buf guard pos s).state.calls := by
  unfold tokenStep
  cases tokenAt buf guard pos with
  | error e => exact hc
  | ok t =>
      obtain ⟨u, hu, hcalls, -⟩ := onToken_split buf t s
      simp only [Result.lift_ok, Result.bind_ok, hu, Result.state_ok]
      exact hcalls c hc

theorem Steps.calls {p q : ℤ} {s t : Splitter Unit} (h : Steps messageSplitter buf guard p s q t)
    {c : Call} (hc : c ∈ s.calls) : c ∈ t.calls := by
  induction h with
  | refl => exact hc
  | @step pos _ _ _ _ _ _ hs _ ih =>
      have := tokenStep_calls buf guard pos hc
      rw [hs] at this
      exact ih this

end split

end Cerberus
