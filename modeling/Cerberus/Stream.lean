import Cerberus.Frames
import Cerberus.Progress

/-! # Splitting a stream message by message

A splitter may stand anywhere in its buffer: what it makes of a message depends neither on
the bytes before it nor on those behind it, except that the positions it stores are shifted.
`Hooks.Framed` says this of the members of a final type, and that its output changes only at
the end of a message, after which it is as new.

Under that condition a final type is a `Frames.Reader` (`messageReader`), and `split_by`
drains the buffer with it (`splitBy_drain`). -/

namespace Cerberus

open Frames

section
variable {σ ω : Type}

/-- A call on a part `l` of a buffer, `d` bytes from its beginning. -/
def Shifted (shift : ℤ → σ → σ) (d : ℤ) (r r' : Except Stop σ) : Prop := r' = r.map (shift d)

/-- `fresh p o` is the final type at the beginning of a message at `p`, when `o` is what it has
given out; `shift` adds to the positions it stores. -/
structure Hooks.Framed (H : Hooks σ) (fresh : ℤ → ω → σ) (out : σ → ω) (shift : ℤ → σ → σ)
    (Inv : ℤ → σ → Prop) : Prop where
  safe : ∀ buf, H.Safe buf Inv
  inv_fresh : ∀ {p o}, 0 ≤ p → Inv p (fresh p o)
  shift_zero : ∀ f, shift 0 f = f
  shift_fresh : ∀ d p o, shift d (fresh p o) = fresh (p + d) o
  out_shift : ∀ d f, out (shift d f) = out f
  out_fresh : ∀ p o, out (fresh p o) = o
  onString : ∀ {pre l post : Bytes} {pos first last f}, Inv pos f → 0 ≤ pos → pos < first →
    first ≤ last → last + lengthOfCrLf ≤ l.length →
    Shifted shift pre.length (H.onString l first last f)
      (H.onString (pre ++ (l ++ post)) (first + pre.length) (last + pre.length) (shift pre.length f))
  onError : ∀ {pre l post : Bytes} {pos first last f}, Inv pos f → 0 ≤ pos → pos < first →
    first ≤ last → last + lengthOfCrLf ≤ l.length →
    Shifted shift pre.length (H.onError l first last f)
      (H.onError (pre ++ (l ++ post)) (first + pre.length) (last + pre.length) (shift pre.length f))
  onSplitPoint : ∀ {pre l post : Bytes} {back next f}, Inv next f → 0 ≤ back → back ≤ next →
    next ≤ l.length →
    Shifted shift pre.length (H.onSplitPoint l back next f)
      (H.onSplitPoint (pre ++ (l ++ post)) (back + pre.length) (next + pre.length)
        (shift pre.length f))
  onArray : ∀ {d empty size f},
    Shifted shift d (H.onArray empty size f) (H.onArray empty size (shift d f))
  out_onString : ∀ {l first last f f'}, H.onString l first last f = .ok f' → out f' = out f
  out_onError : ∀ {l first last f f'}, H.onError l first last f = .ok f' → out f' = out f
  out_onArray : ∀ {empty size f f'}, H.onArray empty size f = .ok f' → out f' = out f
  fresh_onSplitPoint : ∀ {l back next f f'}, Inv next f → H.onSplitPoint l back next f = .ok f' →
    f' = fresh next (out f')

/-! ### One message -/

variable (H : Hooks σ) (out : σ → ω) in
/-- Run over tokens until the first split point. -/
def messageLoop (l : Bytes) : ℕ → ℤ → Splitter σ → Read ω Stop
  | 0, _, _ => .more
  | fuel + 1, pos, s =>
      match lex (bytesFrom l pos) with
      | .more => .more
      | .colon => .more
      | .bad b => .stop (.bad (.token b)) (out s.final)
      | .negative => .stop .overrun (out s.final)
      | .tok k n =>
          match onToken H l (k.token pos n) s with
          | .throw e t => .stop e (out t.final)
          | .ok next t =>
              if t.splitPoints.length = 1 then messageLoop l fuel next t
              else .whole next.toNat (out t.final)

variable (H : Hooks σ) (fresh : ℤ → ω → σ) (out : σ → ω) in
/-- What a splitter makes of the message at the front of `l`.  A length that is negative is a
reason to stop here, and a lone `':'` the beginning of an integer: `LengthsOk` excludes the
one, and the other where the code goes elsewhere. -/
def readMessage (l : Bytes) (o : ω) : Read ω Stop :=
  messageLoop H out l (l.length + 1) 0 (.new 0 (fresh 0 o))

variable {H : Hooks σ} {fresh : ℤ → ω → σ} {out : σ → ω} {shift : ℤ → σ → σ} {Inv : ℤ → σ → Prop}

variable (out Inv) in
/-- A run that has come to `pos` within the message at the front of `l`. -/
structure InMessage (l : Bytes) (o : ω) (pos : ℤ) (s : Splitter σ) : Prop where
  good : Good l Inv pos s
  points : s.splitPoints = [0]
  interrupted : s.interrupted = false
  out : out s.final = o
  inside : pos = 0 ∨ s.nestedArrayElementCount ≠ []

variable (fresh) in
/-- A run at the end of a message. -/
structure AtSplit (p : ℤ) (o : ω) (s : Splitter σ) : Prop where
  points : ∃ q, s.splitPoints = q ++ [p]
  interrupted : s.interrupted = false
  nested : s.nestedArrayElementCount = []
  final : s.final = fresh p o

theorem countDown_bottom : ∀ {l : List ℤ}, (Splitter.countDown l).2 = true → (Splitter.countDown l).1 = []
  | [], _ => rfl
  | n :: l, h => by
      rw [Splitter.countDown] at h ⊢
      by_cases hn : wrap (n - 1) = 0
      · simp only [hn, if_true] at h ⊢
        exact countDown_bottom h
      · simp only [hn, if_false] at h
        cases h

theorem countDown_stays {l : List ℤ} (h : (Splitter.countDown l).2 = false) :
    (Splitter.countDown l).1 ≠ [] := by
  induction l with
  | nil => cases h
  | cons n l ih =>
      rw [Splitter.countDown] at h ⊢
      by_cases hn : wrap (n - 1) = 0
      · simp only [hn, if_true] at h ⊢
        exact ih h
      · simp [hn]

variable (fresh out) in
/-- What one token does: the message goes on, or ends at `next`. -/
def MessageStep (o : ω) (next : ℤ) : Result (Splitter σ) ℤ → Prop
  | .throw _ t => out t.final = o
  | .ok next' t => next' = next ∧ t.interrupted = false ∧
      ((t.splitPoints = [0] ∧ out t.final = o ∧ t.nestedArrayElementCount ≠ []) ∨
        (t.splitPoints = [0, next] ∧ t.nestedArrayElementCount = [] ∧
          t.final = fresh next (out t.final)))

theorem onElement_step (hF : H.Framed fresh out shift Inv) {l : Bytes} {o : ω} {next : ℤ}
    {s : Splitter σ} (hp : s.splitPoints = [0]) (hi : s.interrupted = false) (ho : out s.final = o)
    (hinv : Inv next s.final) :
    MessageStep fresh out o next ((s.onElement H l next).bind fun _ s => .ok next s) := by
  unfold Splitter.onElement
  dsimp only
  cases hc : (Splitter.countDown s.nestedArrayElementCount).2 with
  | false => exact ⟨rfl, hi, Or.inl ⟨hp, ho, countDown_stays hc⟩⟩
  | true =>
      simp only [if_true, Splitter.interruptPoint, hp]
      cases hr : H.onSplitPoint l ([0].getLastD 0) next s.final with
      | error e => exact ho
      | ok f => exact ⟨rfl, hi, Or.inr ⟨rfl, countDown_bottom hc, hF.fresh_onSplitPoint hinv hr⟩⟩

theorem hook_step {o : ω} {next : ℤ} {s : Splitter σ} {r : Except Stop σ}
    {k : Unit → Splitter σ → Result (Splitter σ) ℤ} (ho : out s.final = o)
    (hk : ∀ f, r = .ok f → MessageStep fresh out o next (k () { s with final := f })) :
    MessageStep fresh out o next ((s.hook r).bind k) := by
  cases r with
  | error e => exact ho
  | ok f => exact hk f rfl

theorem text_step (hF : H.Framed fresh out shift Inv) {l : Bytes} {o : ω} {pos next : ℤ}
    {s : Splitter σ} (hs : InMessage out Inv l o pos s) {c : Call} {r : Except Stop σ}
    (hr : SafeAt Inv next r) (ho : ∀ f, r = .ok f → out f = out s.final) :
    MessageStep fresh out o next (((s.record c).hook r).bind fun _ s =>
      (s.onElement H l next).bind fun _ s => .ok next s) := by
  refine hook_step hs.out fun f hf => ?_
  rw [hf] at hr
  exact onElement_step hF hs.points hs.interrupted ((ho f hf).trans hs.out) hr

theorem Good.token_bounds {l : Bytes} {pos : ℤ} {s : Splitter σ} (hs : Good l Inv pos s) {k : Kind}
    {n : ℕ} (hk : lex (bytesFrom l pos) = .tok k n) :
    3 ≤ n ∧ pos + n ≤ l.length ∧ ∀ t, k = .str t ∨ k = .err t → t.length + 3 ≤ n := by
  obtain ⟨hn3, hnl, hin⟩ := lex_tok hk
  have hlen : (bytesFrom l pos).length = l.length - pos.toNat := by rw [bytesFrom, List.length_drop]
  have hlo := hs.lo
  have hhi := hs.hi
  refine ⟨hn3, by omega, fun t ht => ?_⟩
  rcases ht with rfl | rfl
  · exact hin.1
  · exact hin.1

/-- The range of a text lies behind the start of its token. -/
theorem textRange (pos : ℤ) {n m : ℕ} (h : m + 3 ≤ n) :
    pos < pos + n - lengthOfCrLf - m ∧
    pos + n - lengthOfCrLf - m ≤ pos + n - lengthOfCrLf ∧
    pos + n - lengthOfCrLf + lengthOfCrLf = pos + n := by
  unfold lengthOfCrLf
  omega

theorem onToken_step (hF : H.Framed fresh out shift Inv) {l : Bytes} {o : ω} {pos : ℤ}
    {s : Splitter σ} (hs : InMessage out Inv l o pos s) {k : Kind} {n : ℕ}
    (hk : lex (bytesFrom l pos) = .tok k n) :
    MessageStep fresh out o (pos + n) (onToken H l (k.token pos n) s) := by
  obtain ⟨hn3, hnl, htext⟩ := hs.good.token_bounds hk
  have hlo := hs.good.lo
  have hinv := (hF.safe l).mono (show pos ≤ pos + n by omega) hs.good.inv
  cases k with
  | int => exact onElement_step hF hs.points hs.interrupted hs.out hinv
  | nil => exact onElement_step hF hs.points hs.interrupted hs.out hinv
  | str t =>
      obtain ⟨hlt, hle, hend⟩ := textRange pos (htext t (Or.inl rfl))
      have hsafe := (hF.safe l).onString hs.good.inv hlo hlt hle (by rw [hend]; exact hnl)
      rw [hend] at hsafe
      exact text_step hF hs hsafe fun f => hF.out_onString
  | err t =>
      obtain ⟨hlt, hle, hend⟩ := textRange pos (htext t (Or.inr rfl))
      have hsafe := (hF.safe l).onError hs.good.inv hlo hlt hle (by rw [hend]; exact hnl)
      rw [hend] at hsafe
      exact text_step hF hs hsafe fun f => hF.out_onError
  | arr size =>
      simp only [Kind.token, onToken, Splitter.onArr]
      cases hr : H.onArray s.nestedArrayElementCount.isEmpty size s.final with
      | error e => exact hs.out
      | ok f =>
          have hsafe := @(hF.safe l).onArray _ s.nestedArrayElementCount.isEmpty size _ hinv
          rw [hr] at hsafe
          have ho := (hF.out_onArray hr).trans hs.out
          simp only [Splitter.hook, Result.bind_ok]
          by_cases h0 : size = 0
          · rw [if_pos h0]
            exact onElement_step hF hs.points hs.interrupted ho hsafe
          · rw [if_neg h0]
            exact ⟨rfl, hs.interrupted, Or.inl ⟨hs.points, ho, by simp⟩⟩

/-- A step keeps the run in the message, or ends it. -/
theorem onToken_inMessage (hF : H.Framed fresh out shift Inv) {l : Bytes} {o : ω} {pos : ℤ}
    {s : Splitter σ} (hs : InMessage out Inv l o pos s) {k : Kind} {n : ℕ}
    (hk : lex (bytesFrom l pos) = .tok k n) :
    (∃ e t, onToken H l (k.token pos n) s = .throw e t ∧ e.Bad ∧ out t.final = o) ∨
    (∃ t, onToken H l (k.token pos n) s = .ok (pos + n) t ∧ InMessage out Inv l o (pos + n) t) ∨
    (∃ t, onToken H l (k.token pos n) s = .ok (pos + n) t ∧ t.splitPoints = [0, pos + n] ∧
      TokenStart l (bytesFrom l (pos + n)) ∧ AtSplit fresh (pos + n) (out t.final) t) := by
  have hstep := onToken_step hF hs hk
  have hgood := onToken_good (hF.safe l) hs.good hk
  cases hr : onToken H l (k.token pos n) s with
  | throw e t =>
      rw [hr] at hstep hgood
      exact Or.inl ⟨e, t, rfl, hgood.1, hstep⟩
  | ok next t =>
      rw [hr] at hstep hgood
      obtain ⟨rfl, hi, ⟨hp, ho, hn⟩ | ⟨hp, hn, hf⟩⟩ := hstep
      · exact Or.inr (Or.inl ⟨t, rfl, hgood.2, hp, hi, ho, Or.inr hn⟩)
      · exact Or.inr (Or.inr ⟨t, rfl, hp, hgood.2.start, ⟨[0], hp⟩, hi, hn, hf⟩)

/-! ### The same message elsewhere -/

variable (shift) in
/-- `t` is to the buffer what `s` is to the part of it that starts at `d`; `q` are the split
points before that part. -/
structure Sim (d : ℤ) (q : List ℤ) (s t : Splitter σ) : Prop where
  interrupted : t.interrupted = s.interrupted
  points : t.splitPoints = q ++ s.splitPoints.map (· + d)
  nested : t.nestedArrayElementCount = s.nestedArrayElementCount
  final : t.final = shift d s.final

variable (shift) in
def SimResult (d : ℤ) (q : List ℤ) : Result (Splitter σ) ℤ → Result (Splitter σ) ℤ → Prop
  | .ok p s, .ok p' t => p' = p + d ∧ Sim shift d q s t
  | .throw e s, .throw e' t => e' = e ∧ Sim shift d q s t
  | _, _ => False

theorem SimResult.ok {d p : ℤ} {q : List ℤ} {s : Splitter σ} {r : Result (Splitter σ) ℤ}
    (h : SimResult shift d q (.ok p s) r) : ∃ t, r = .ok (p + d) t ∧ Sim shift d q s t := by
  cases r with
  | ok p' t => exact ⟨t, by rw [h.1], h.2⟩
  | throw e t => exact h.elim

theorem SimResult.throw {d : ℤ} {e : Stop} {q : List ℤ} {s : Splitter σ}
    {r : Result (Splitter σ) ℤ} (h : SimResult shift d q (.throw e s) r) :
    ∃ t, r = .throw e t ∧ Sim shift d q s t := by
  cases r with
  | ok p' t => exact h.elim
  | throw e t => exact ⟨t, by rw [h.1], h.2⟩

theorem Sim.out_eq (hF : H.Framed fresh out shift Inv) {d : ℤ} {q : List ℤ} {s t : Splitter σ}
    (h : Sim shift d q s t) : out t.final = out s.final := by
  rw [h.final, hF.out_shift]

theorem Sim.back {d : ℤ} {q : List ℤ} {s t : Splitter σ} (h : Sim shift d q s t)
    (hp : s.splitPoints = [0]) : t.interruptPoint = s.interruptPoint + d := by
  simp [Splitter.interruptPoint, h.points, hp]

section embed
variable {pre l post : Bytes} {q : List ℤ} {s t : Splitter σ}

theorem onElement_sim (hF : H.Framed fresh out shift Inv) (h : Sim shift pre.length q s t)
    (hp : s.splitPoints = [0]) {next : ℤ} (h0 : 0 ≤ next) (hn : next ≤ l.length)
    (hinv : Inv next s.final) :
    SimResult shift pre.length q ((s.onElement H l next).bind fun _ s => .ok next s)
      ((t.onElement H (pre ++ (l ++ post)) (next + pre.length)).bind
        fun _ t => .ok (next + pre.length) t) := by
  have hb : s.interruptPoint = 0 := by simp [Splitter.interruptPoint, hp]
  unfold Splitter.onElement
  dsimp only
  rw [h.nested]
  cases (Splitter.countDown s.nestedArrayElementCount).2 with
  | false => exact ⟨rfl, h.interrupted, h.points, rfl, h.final⟩
  | true =>
      have hsplit := @hF.onSplitPoint pre l post _ _ _ hinv (le_refl 0) h0 hn
      have hbt := h.back hp
      rw [hb] at hbt
      simp only [Splitter.interruptPoint] at hb hbt
      simp only [if_true, Splitter.interruptPoint, hb, hbt, h.final]
      rw [hsplit]
      cases H.onSplitPoint l 0 next s.final with
      | error e => exact ⟨rfl, h.interrupted, h.points, rfl, rfl⟩
      | ok f =>
          refine ⟨rfl, h.interrupted, ?_, rfl, rfl⟩
          simp [h.points]

theorem hook_sim (h : Sim shift pre.length q s t) {r r' : Except Stop σ}
    {k k' : Unit → Splitter σ → Result (Splitter σ) ℤ} (hr : Shifted shift pre.length r r')
    (hk : ∀ f, r = .ok f → Sim shift pre.length q { s with final := f }
        { t with final := shift pre.length f } →
      SimResult shift pre.length q (k () { s with final := f })
        (k' () { t with final := shift pre.length f })) :
    SimResult shift pre.length q ((s.hook r).bind k) ((t.hook r').bind k') := by
  rw [hr]
  cases r with
  | error e => exact ⟨rfl, h⟩
  | ok f => exact hk f rfl ⟨h.interrupted, h.points, h.nested, rfl⟩

theorem Sim.record {d : ℤ} (h : Sim shift d q s t) (c c' : Call) :
    Sim shift d q (s.record c) (t.record c') :=
  ⟨h.interrupted, h.points, h.nested, h.final⟩

theorem text_sim (hF : H.Framed fresh out shift Inv) (h : Sim shift pre.length q s t)
    (hp : s.splitPoints = [0]) {next : ℤ} (h0 : 0 ≤ next) (hn : next ≤ l.length) {c c' : Call}
    {r r' : Except Stop σ} (hr : Shifted shift pre.length r r') (hsafe : SafeAt Inv next r) :
    SimResult shift pre.length q
      (((s.record c).hook r).bind fun _ s => (s.onElement H l next).bind fun _ s => .ok next s)
      (((t.record c').hook r').bind fun _ t =>
        (t.onElement H (pre ++ (l ++ post)) (next + pre.length)).bind
          fun _ t => .ok (next + pre.length) t) := by
  refine hook_sim (h.record c c') hr fun f hf hsim => ?_
  rw [hf] at hsafe
  exact onElement_sim hF hsim hp h0 hn hsafe

theorem textRange_add (pos d : ℤ) (n m : ℕ) :
    pos + n + d - lengthOfCrLf = pos + n - lengthOfCrLf + d ∧
    pos + n - lengthOfCrLf + d - m = pos + n - lengthOfCrLf - m + d := by
  omega

variable (pre post) in
/-- A token of `l` is treated in the same way in a buffer of which `l` is a part. -/
theorem onToken_sim (hF : H.Framed fresh out shift Inv) (h : Sim shift pre.length q s t) {o : ω}
    {pos : ℤ} (hs : InMessage out Inv l o pos s) {k : Kind} {n : ℕ}
    (hk : lex (bytesFrom l pos) = .tok k n) :
    SimResult shift pre.length q (onToken H l (k.token pos n) s)
      (onToken H (pre ++ (l ++ post)) (k.token (pos + pre.length) n) t) := by
  obtain ⟨hn3, hnl, htext⟩ := hs.good.token_bounds hk
  have hlo := hs.good.lo
  have hinv := (hF.safe l).mono (show pos ≤ pos + n by omega) hs.good.inv
  have hnext : pos + pre.length + n = pos + n + pre.length := by omega
  cases k with
  | int =>
      simp only [Kind.token, hnext]
      exact onElement_sim hF h hs.points (by omega) hnl hinv
  | nil =>
      simp only [Kind.token, hnext]
      exact onElement_sim hF h hs.points (by omega) hnl hinv
  | str x =>
      obtain ⟨hlt, hle, hend⟩ := textRange pos (htext x (Or.inl rfl))
      have hsafe := (hF.safe l).onString hs.good.inv hlo hlt hle (by rw [hend]; exact hnl)
      rw [hend] at hsafe
      simp only [Kind.token, onToken, hnext, (textRange_add pos pre.length n x.length).1,
        (textRange_add pos pre.length n x.length).2]
      refine text_sim hF h hs.points (by omega) hnl ?_ hsafe
      exact h.final ▸ hF.onString hs.good.inv hlo hlt hle (by rw [hend]; exact hnl)
  | err x =>
      obtain ⟨hlt, hle, hend⟩ := textRange pos (htext x (Or.inr rfl))
      have hsafe := (hF.safe l).onError hs.good.inv hlo hlt hle (by rw [hend]; exact hnl)
      rw [hend] at hsafe
      simp only [Kind.token, onToken, hnext, (textRange_add pos pre.length n x.length).1,
        (textRange_add pos pre.length n x.length).2]
      refine text_sim hF h hs.points (by omega) hnl ?_ hsafe
      exact h.final ▸ hF.onError hs.good.inv hlo hlt hle (by rw [hend]; exact hnl)
  | arr size =>
      have harr := @hF.onArray pre.length s.nestedArrayElementCount.isEmpty size s.final
      simp only [Kind.token, onToken, Splitter.onArr, hnext, h.nested, h.final]
      rw [harr]
      cases hr : H.onArray s.nestedArrayElementCount.isEmpty size s.final with
      | error e => exact ⟨rfl, h⟩
      | ok f =>
          have hsafe := @(hF.safe l).onArray _ s.nestedArrayElementCount.isEmpty size _ hinv
          rw [hr] at hsafe
          have hsim : Sim shift pre.length q { s with final := f } { t with final := shift pre.length f } :=
            ⟨h.interrupted, h.points, h.nested, rfl⟩
          simp only [Splitter.hook, Except.map, Result.bind_ok]
          by_cases h0 : size = 0
          · simp only [h0, if_true]
            exact onElement_sim hF hsim hs.points (by omega) hnl hsafe
          · simp only [h0, if_false]
            exact ⟨rfl, h.interrupted, h.points, by simp [h.nested], rfl⟩

end embed

/-! ### The reader -/

theorem inMessage_new (hF : H.Framed fresh out shift Inv) (l : Bytes) (o : ω) :
    InMessage out Inv l o 0 (.new 0 (fresh 0 o)) :=
  ⟨good_new l (hF.inv_fresh le_rfl), rfl, rfl, hF.out_fresh 0 o, Or.inl rfl⟩

theorem messageLoop_whole (hF : H.Framed fresh out shift Inv) {l : Bytes} {o o' : ω} {m : ℕ} :
    ∀ (fuel : ℕ) (pos : ℤ) (s : Splitter σ), InMessage out Inv l o pos s →
      messageLoop H out l fuel pos s = .whole m o' →
      0 < m ∧ m ≤ l.length ∧ TokenStart l (l.drop m)
  | 0, _, _, _, h => by cases h
  | fuel + 1, pos, s, hs, h => by
      rw [messageLoop] at h
      cases hk : lex (bytesFrom l pos) with
      | more => simp [hk] at h
      | colon => simp [hk] at h
      | bad b => simp [hk] at h
      | negative => simp [hk] at h
      | tok k n =>
          obtain ⟨hn3, hnl, -⟩ := hs.good.token_bounds hk
          have hlo := hs.good.lo
          rcases onToken_inMessage hF hs hk with ⟨e, t, ht, -⟩ | ⟨t, ht, hin⟩ | ⟨t, ht, hp, hst, -⟩
          · simp [hk, ht] at h
          · simp only [hk, ht, hin.points, List.length_singleton, if_true] at h
            exact messageLoop_whole hF fuel (pos + n) t hin h
          · simp only [hk, ht, hp] at h
            cases h
            exact ⟨by omega, by omega, hst⟩

/-- Where the reader stops, nothing of the message has been put out. -/
theorem messageLoop_stop (hF : H.Framed fresh out shift Inv) {l : Bytes} {o o' : ω} {e : Stop} :
    ∀ (fuel : ℕ) (pos : ℤ) (s : Splitter σ), InMessage out Inv l o pos s →
      messageLoop H out l fuel pos s = .stop e o' → o' = o
  | 0, _, _, _, h => by cases h
  | fuel + 1, pos, s, hs, h => by
      rw [messageLoop] at h
      cases hk : lex (bytesFrom l pos) with
      | more => simp [hk] at h
      | colon => simp [hk] at h
      | bad b => simp only [hk] at h; cases h; exact hs.out
      | negative => simp only [hk] at h; cases h; exact hs.out
      | tok k n =>
          rcases onToken_inMessage hF hs hk with ⟨e, t, ht, ho⟩ | ⟨t, ht, hin⟩ | ⟨t, ht, hp, -⟩
          · simp only [hk, ht] at h
            cases h
            exact ho.2
          · simp only [hk, ht, hin.points, List.length_singleton, if_true] at h
            exact messageLoop_stop hF fuel (pos + n) t hin h
          · simp only [hk, ht, hp] at h
            cases h

theorem messageLoop_append (hF : H.Framed fresh out shift Inv) {l : Bytes} {o : ω} (m : Bytes) :
    ∀ (fuel fuel' : ℕ) (pos : ℤ) (s t : Splitter σ), fuel ≤ fuel' → InMessage out Inv l o pos s →
      Sim shift 0 [] s t → messageLoop H out l fuel pos s = .more ∨
        messageLoop H out (l ++ m) fuel' pos t = messageLoop H out l fuel pos s
  | 0, _, _, _, _, _, _, _ => Or.inl rfl
  | fuel + 1, 0, _, _, _, hle, _, _ => by omega
  | fuel + 1, fuel' + 1, pos, s, t, hle, hs, hst => by
      have hlo := hs.good.lo
      have hb : bytesFrom (l ++ m) pos = bytesFrom l pos ++ m := by
        have := hs.good.hi
        rw [bytesFrom, bytesFrom, List.drop_append_of_le_length (by omega)]
      have hout := hst.out_eq hF
      simp only [messageLoop, hb]
      cases hk : lex (bytesFrom l pos) with
      | more => exact Or.inl rfl
      | colon => exact Or.inl rfl
      | bad b => rw [lex_append (by rw [hk]; trivial), hk]; exact Or.inr (by rw [hout])
      | negative => rw [lex_append (by rw [hk]; trivial), hk]; exact Or.inr (by rw [hout])
      | tok k n =>
          rw [lex_append (by rw [hk]; trivial), hk]
          dsimp only
          have hsim := onToken_sim [] m hF hst hs hk
          rw [show pos + (([] : Bytes).length : ℤ) = pos by simp, List.nil_append] at hsim
          rcases onToken_inMessage hF hs hk with ⟨e, u, hu, -⟩ | ⟨u, hu, hin⟩ | ⟨u, hu, hp, -⟩
          · rw [hu] at hsim ⊢
            obtain ⟨v, hv, huv⟩ := hsim.throw
            simp only [hv, huv.out_eq hF]
            exact Or.inr trivial
          · rw [hu] at hsim ⊢
            obtain ⟨v, hv, huv⟩ := hsim.ok
            simp only [List.length_nil, Nat.cast_zero, add_zero] at hv huv
            simp only [hv, hin.points, huv.points, List.nil_append, List.map_cons, List.map_nil,
              List.length_singleton, if_true]
            exact messageLoop_append hF m fuel fuel' (pos + n) u v (by omega) hin huv
          · rw [hu] at hsim ⊢
            obtain ⟨v, hv, huv⟩ := hsim.ok
            simp only [List.length_nil, Nat.cast_zero, add_zero] at hv huv
            simp only [hv, hp, huv.points, huv.out_eq hF]
            exact Or.inr rfl

theorem sim_zero (hF : H.Framed fresh out shift Inv) (s : Splitter σ) : Sim shift 0 [] s s :=
  ⟨rfl, by simp, rfl, (hF.shift_zero _).symm⟩

theorem readMessage_append (hF : H.Framed fresh out shift Inv) (l m : Bytes) (o : ω) :
    readMessage H fresh out l o = .more ∨
      readMessage H fresh out (l ++ m) o = readMessage H fresh out l o := by
  refine messageLoop_append hF m _ _ 0 _ _ ?_ (inMessage_new hF l o) (sim_zero hF _)
  rw [List.length_append]
  omega

/-- A final type as a reader of messages. -/
def messageReader (hF : H.Framed fresh out shift Inv) : Reader Byte ω Stop where
  read := readMessage H fresh out
  read_nil _ := rfl
  whole_pos {l o _ _} h :=
    have hw := messageLoop_whole hF _ 0 _ (inMessage_new hF l o) h
    ⟨hw.1, hw.2.1⟩
  whole_append {l o _ _} h m := by
    rcases readMessage_append hF l m o with h' | h'
    · rw [h] at h'; cases h'
    · rw [h', h]
  stop_append {l o _ _} h m := by
    rcases readMessage_append hF l m o with h' | h'
    · rw [h] at h'; cases h'
    · rw [h', h]

theorem readMessage_stop (hF : H.Framed fresh out shift Inv) {l : Bytes} {o o' : ω} {e : Stop}
    (h : (messageReader hF).read l o = .stop e o') : o' = o :=
  messageLoop_stop hF _ 0 _ (inMessage_new hF l o) h

variable (H fresh out) in
/-- What the flat run does from `pos`, in the message that starts at `d` with the output `o`,
when the reader finds `r`; `empty` says that nothing is left at `d`. -/
def RunsAs (buf : Bytes) (guard : Byte) (d : ℤ) (empty : Prop) (o : ω) (pos : ℤ) (t : Splitter σ) :
    Read ω Stop → Prop
  | .whole n o' => ∃ t', Steps H buf guard pos t (n + d) t' ∧ AtSplit fresh (n + d) o' t'
  | .more => ∃ t', t'.interruptPoint = d ∧ t'.interrupted = false ∧ out t'.final = o ∧
      ((Steps H buf guard pos t buf.length t' ∧ (empty ∨ t'.nestedArrayElementCount ≠ [])) ∨
        StepsStop H buf guard pos t .interrupted t')
  | .stop e o' => ∃ t', StepsStop H buf guard pos t e t' ∧ out t'.final = o' ∧ e.Bad

theorem RunsAs.step {buf : Bytes} {guard : Byte} {d : ℤ} {empty : Prop} {o : ω} {p p' : ℤ}
    {t t' : Splitter σ} {r : Read ω Stop} (h : Steps H buf guard p t p' t')
    (hr : RunsAs H fresh out buf guard d empty o p' t' r) :
    RunsAs H fresh out buf guard d empty o p t r := by
  cases r with
  | whole n o' => obtain ⟨u, hu, ha⟩ := hr; exact ⟨u, h.trans hu, ha⟩
  | stop e o' => obtain ⟨u, hu, ho⟩ := hr; exact ⟨u, h.stop hu, ho⟩
  | more =>
      obtain ⟨u, hb, hi, ho, ⟨hu, hn⟩ | hu⟩ := hr
      · exact ⟨u, hb, hi, ho, Or.inl ⟨h.trans hu, hn⟩⟩
      · exact ⟨u, hb, hi, ho, Or.inr (h.stop hu)⟩

theorem Sim.atSplit (hF : H.Framed fresh out shift Inv) {d p : ℤ} {q : List ℤ} {s t : Splitter σ}
    {o : ω} (h : Sim shift d q s t) (hp : s.splitPoints = [0, p]) (hs : AtSplit fresh p o s) :
    AtSplit fresh (p + d) o t :=
  ⟨⟨q ++ [0 + d], by simp [h.points, hp]⟩, h.interrupted.trans hs.interrupted,
    h.nested.trans hs.nested, by rw [h.final, hs.final, hF.shift_fresh]⟩

theorem InMessage.at_sim (hF : H.Framed fresh out shift Inv) {l : Bytes} {o : ω} {pos d : ℤ}
    {q : List ℤ} {s t : Splitter σ} (hs : InMessage out Inv l o pos s) (h : Sim shift d q s t) :
    t.interruptPoint = d ∧ t.interrupted = false ∧ out t.final = o := by
  refine ⟨?_, h.interrupted.trans hs.interrupted, (h.out_eq hF).trans hs.out⟩
  simp [Splitter.interruptPoint, h.points, hs.points]

/-- By induction on the tokens of the message. -/
theorem messageLoop_runs (hF : H.Framed fresh out shift Inv) (pre : Bytes) {l : Bytes} {guard : Byte}
    (hL : LengthsOk guard l) {o : ω} {q : List ℤ} :
    ∀ (fuel : ℕ) (pos : ℤ) (s t : Splitter σ), l.length - pos < fuel → InMessage out Inv l o pos s →
      Sim shift pre.length q s t →
      RunsAs H fresh out (pre ++ l) guard pre.length (l = []) o (pos + pre.length) t
        (messageLoop H out l fuel pos s)
  | 0, pos, s, t, hfuel, hs, _ => by
      have := hs.good.hi
      simp only [Nat.cast_zero] at hfuel
      omega
  | fuel + 1, pos, s, t, hfuel, hs, hst => by
      have hlo := hs.good.lo
      have hhi := hs.good.hi
      have hlen : ((pre ++ l).length : ℤ) = pre.length + l.length := by
        rw [List.length_append]; push_cast; rfl
      obtain ⟨hback, hint, hout⟩ := hs.at_sim hF hst
      by_cases hend : pos = l.length
      · -- the bytes end between two tokens
        have hl : bytesFrom l pos = [] := by rw [bytesFrom, hend, Int.toNat_natCast, List.drop_length]
        simp only [messageLoop, hl, lex]
        refine ⟨t, hback, hint, hout, Or.inl ⟨?_, ?_⟩⟩
        · rw [show pos + (pre.length : ℤ) = (pre ++ l).length by omega]
          exact Steps.refl _ _
        · rw [hst.nested]
          refine hs.inside.imp_left fun h => ?_
          rw [h] at hend
          exact List.length_eq_zero_iff.mp (by omega)
      · have hne : pos + (pre.length : ℤ) ≠ (pre ++ l).length := by omega
        have hb : bytesFrom (pre ++ l) (pos + pre.length) = bytesFrom l pos := by
          rw [bytesFrom, bytesFrom, show (pos + (pre.length : ℤ)).toNat = pre.length + pos.toNat by omega,
            ← List.drop_drop, List.drop_left]
        have hat : Lexed.at guard (pos + pre.length) (lex (bytesFrom (pre ++ l) (pos + pre.length)))
            (tokenAt (pre ++ l) guard (pos + pre.length)) := tokenAt_lex guard (by omega) (by omega)
        obtain ⟨hneg, hcol⟩ := hL _ hs.good.start
        -- what is thrown before the token is complete
        have hthrow : ∀ e, tokenAt (pre ++ l) guard (pos + pre.length) = .error e →
            StepsStop H (pre ++ l) guard (pos + pre.length) t e t := fun e he =>
          ⟨_, t, Steps.refl _ _, hne, by unfold tokenStep; rw [he]; rfl⟩
        rw [hb] at hat
        simp only [messageLoop]
        cases hk : lex (bytesFrom l pos) with
        | more => rw [hk] at hat; exact ⟨t, hback, hint, hout, Or.inr (hthrow _ hat)⟩
        | colon =>
            rw [hk] at hat
            simp only [Lexed.at, hcol hk, if_false] at hat
            exact ⟨t, hback, hint, hout, Or.inr (hthrow _ hat)⟩
        | bad b => rw [hk] at hat; exact ⟨t, hthrow _ hat, hst.out_eq hF, ⟨_, rfl⟩⟩
        | negative => exact absurd hk hneg
        | tok k n =>
            rw [hk] at hat
            have hstep : tokenStep H (pre ++ l) guard (pos + pre.length) t =
                onToken H (pre ++ l) (k.token (pos + pre.length) n) t := by
              unfold tokenStep; rw [hat]; rfl
            have hsim := onToken_sim pre [] hF hst hs hk
            rw [List.append_nil, ← hstep] at hsim
            obtain ⟨hn3, hnl, -⟩ := hs.good.token_bounds hk
            dsimp only
            rcases onToken_inMessage hF hs hk with ⟨e, u, hu, he, -⟩ | ⟨u, hu, hin⟩ | ⟨u, hu, hp, -, hat⟩
            · rw [hu] at hsim ⊢
              obtain ⟨v, hv, huv⟩ := hsim.throw
              exact ⟨v, ⟨_, t, Steps.refl _ _, hne, hv⟩, huv.out_eq hF, he⟩
            · rw [hu] at hsim ⊢
              obtain ⟨v, hv, huv⟩ := hsim.ok
              simp only [hin.points, List.length_singleton, if_true]
              exact RunsAs.step (Steps.step hne hv (Steps.refl _ _))
                (messageLoop_runs hF pre hL fuel (pos + n) u v (by push_cast at hfuel; omega) hin huv)
            · rw [hu] at hsim ⊢
              obtain ⟨v, hv, huv⟩ := hsim.ok
              simp only [hp]
              refine ⟨v, ?_, ?_⟩
              · rw [show (((pos + n).toNat : ℕ) : ℤ) = pos + n by omega]
                exact Steps.step hne hv (Steps.refl _ _)
              · rw [show (((pos + n).toNat : ℕ) : ℤ) = pos + n by omega]
                exact huv.atSplit hF hp hat

theorem AtSplit.sim (hF : H.Framed fresh out shift Inv) {p : ℤ} {o : ω} {t : Splitter σ}
    (h : AtSplit fresh p o t) : ∃ q, Sim shift p q (.new 0 (fresh 0 o)) t := by
  obtain ⟨q, hq⟩ := h.points
  refine ⟨q, h.interrupted, ?_, h.nested, ?_⟩
  · simp [Splitter.new, hq]
  · rw [h.final, Splitter.new, hF.shift_fresh, zero_add]

variable (H out) in
/-- The flat run from `pos` and `t` ends as `d` says. -/
def EndsAs (buf : Bytes) (guard : Byte) (pos : ℤ) (t : Splitter σ) (d : Drained Byte ω Stop) :
    Prop :=
  match d.stopped with
  | some e => ∃ t', StepsStop H buf guard pos t e t' ∧ out t'.final = d.out ∧ e.Bad
  | none => ∃ t', out t'.final = d.out ∧
      ((Steps H buf guard pos t buf.length t' ∧ truncate buf t' = d.rest) ∨
        (StepsStop H buf guard pos t .interrupted t' ∧ truncate buf t'.interrupt = d.rest))

theorem EndsAs.step {buf : Bytes} {guard : Byte} {p p' : ℤ} {t t' : Splitter σ}
    {d : Drained Byte ω Stop} (h : Steps H buf guard p t p' t') (hd : EndsAs H out buf guard p' t' d) :
    EndsAs H out buf guard p t d := by
  unfold EndsAs at hd ⊢
  cases hs : d.stopped with
  | some e => rw [hs] at hd; obtain ⟨u, hu, ho⟩ := hd; exact ⟨u, h.stop hu, ho⟩
  | none =>
      rw [hs] at hd
      obtain ⟨u, ho, ⟨hu, ht⟩ | ⟨hu, ht⟩⟩ := hd
      · exact ⟨u, ho, Or.inl ⟨h.trans hu, ht⟩⟩
      · exact ⟨u, ho, Or.inr ⟨h.stop hu, ht⟩⟩

/-- By induction on the messages of the buffer. -/
theorem drain_runs (hF : H.Framed fresh out shift Inv) {guard : Byte} (pre l : Bytes)
    (hL : LengthsOk guard l) (o : ω) (t : Splitter σ) (ht : AtSplit fresh pre.length o t) :
    EndsAs H out (pre ++ l) guard pre.length t (drain (messageReader hF) l o) := by
  induction hn : l.length using Nat.strongRecOn generalizing pre l o t with
  | _ k ih =>
      obtain ⟨q, hq⟩ := ht.sim hF
      have hrun := messageLoop_runs hF pre hL (l.length + 1) 0 _ t (by push_cast; omega)
        (inMessage_new hF l o) hq
      rw [zero_add] at hrun
      change RunsAs H fresh out _ _ _ _ _ _ _ ((messageReader hF).read l o) at hrun
      cases hr : (messageReader hF).read l o with
      | whole n o' =>
          obtain ⟨hpos, hle, hst⟩ := messageLoop_whole hF _ 0 _ (inMessage_new hF l o) hr
          rw [hr] at hrun
          obtain ⟨u, hu, hat⟩ := hrun
          have hp : ((pre ++ l.take n).length : ℤ) = n + pre.length := by
            rw [List.length_append, List.length_take_of_le hle]; push_cast; omega
          have hnext := ih (l.drop n).length (by rw [List.length_drop]; omega) (pre ++ l.take n)
            (l.drop n) (hL.suffix hst) o' u (hp ▸ hat) rfl
          rw [List.append_assoc, List.take_append_drop, hp] at hnext
          rw [drain_whole hr]
          exact EndsAs.step hu hnext
      | more =>
          rw [hr] at hrun
          obtain ⟨u, hback, hi, ho, hcases⟩ := hrun
          rw [drain_more hr]
          have hrest : (pre ++ l).drop u.interruptPoint.toNat = l := by
            rw [hback, Int.toNat_natCast, List.drop_left]
          refine ⟨u, ho, ?_⟩
          rcases hcases with ⟨hu, hempty⟩ | hu
          · refine Or.inl ⟨hu, ?_⟩
            unfold truncate
            rcases hempty with rfl | hn
            · rw [hrest, ite_self]
            · rw [if_neg (by simp [Splitter.finished, hn]), hrest]
          · refine Or.inr ⟨hu, ?_⟩
            unfold truncate
            rw [if_neg (by simp [Splitter.finished, Splitter.interrupt])]
            exact hrest
      | stop e o' =>
          rw [hr] at hrun
          rw [drain_stop hr]
          exact hrun

theorem atSplit_new (p : ℤ) (o : ω) : AtSplit fresh p o (.new p (fresh p o)) :=
  ⟨⟨[], rfl⟩, rfl, rfl, rfl⟩

/-- `split_by` on a buffer with `LengthsOk`: the reader drains the buffer. -/
theorem splitBy_drain (hF : H.Framed fresh out shift Inv) {guard : Byte} {buf : Bytes}
    (hL : LengthsOk guard buf) (o : ω) :
    match (drain (messageReader hF) buf o).stopped with
    | none => ∃ s, splitBy H buf guard (fuelFor buf) (.new 0 (fresh 0 o)) = .ok () s ∧
        truncate buf s = (drain (messageReader hF) buf o).rest ∧
        out s.final = (drain (messageReader hF) buf o).out
    | some e => ∃ s, splitBy H buf guard (fuelFor buf) (.new 0 (fresh 0 o)) = .throw e s ∧
        out s.final = (drain (messageReader hF) buf o).out ∧ e.Bad := by
  have hends := drain_runs hF [] buf hL o (.new 0 (fresh 0 o)) (atSplit_new _ _)
  have hfol := splitLoop_follows H buf guard (fuelFor buf) 0
    (.new 0 (fresh 0 o))
  simp only [List.nil_append, List.length_nil, Nat.cast_zero, EndsAs] at hends
  unfold splitBy
  rcases splitLoop_ends (hF.safe buf) hL (hF.inv_fresh (le_refl 0)) with ⟨s, hr⟩ | ⟨e, s, hr, he⟩
  · rw [hr] at hfol ⊢
    change Steps H buf guard 0 (.new 0 (fresh 0 o)) buf.length s.ranges at hfol
    cases hs : (drain (messageReader hF) buf o).stopped with
    | some e =>
        rw [hs] at hends
        obtain ⟨u, hu, -⟩ := hends
        exact absurd hu hfol.end_not_stop
    | none =>
        rw [hs] at hends
        obtain ⟨u, ho, ⟨hu, ht⟩ | ⟨hu, -⟩⟩ := hends
        · rw [hfol.end_unique hu] at ho ht
          exact ⟨s, rfl, ht, ho⟩
        · exact absurd hu hfol.end_not_stop
  · rw [hr] at hfol ⊢
    have hfol : StepsStop H buf guard 0 (.new 0 (fresh 0 o)) e s.ranges := hfol he.ne_fuel
    cases hs : (drain (messageReader hF) buf o).stopped with
    | some e' =>
        rw [hs] at hends
        obtain ⟨u, hu, ho, b, rfl⟩ := hends
        obtain ⟨rfl, rfl⟩ := hu.unique hfol
        exact ⟨s, rfl, ho, b, rfl⟩
    | none =>
        rw [hs] at hends
        obtain ⟨u, ho, ⟨hu, -⟩ | ⟨hu, ht⟩⟩ := hends
        · exact absurd hfol hu.end_not_stop
        · obtain ⟨rfl, rfl⟩ := hu.unique hfol
          exact ⟨s.interrupt, rfl, ht, ho⟩

end

end Cerberus
