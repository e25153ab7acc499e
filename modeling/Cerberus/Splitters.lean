import Cerberus.Command
import Cerberus.Response
import Cerberus.Stream

/-! # The splitters of the proxy

`ClientCommandSplitter` and `ServerResponseSplitter` satisfy `Hooks.Framed`: the positions
they store stay behind the position of the parser and in order, so that every `Buffer` they
build from two of them is a range of the buffer, and they treat a message in the same way
wherever it stands. -/

namespace Cerberus

/-! ### Ranges -/

theorem slice_of_range {buf : Bytes} {first last : ℤ} (h : 0 ≤ first ∧ first ≤ last ∧ last ≤ buf.length) :
    slice buf first last = some ((buf.drop first.toNat).take (last - first).toNat) := by
  rw [slice, if_pos h]

theorem slice_shift {pre l post : Bytes} {first last : ℤ}
    (h : 0 ≤ first ∧ first ≤ last ∧ last ≤ l.length) :
    slice (pre ++ (l ++ post)) (first + pre.length) (last + pre.length) = slice l first last := by
  have hlen : ((pre ++ (l ++ post)).length : ℤ) = pre.length + (l.length + post.length) := by
    simp only [List.length_append, Nat.cast_add]
  rw [slice_of_range h, slice_of_range (by omega)]
  rw [show (first + (pre.length : ℤ)).toNat = pre.length + first.toNat by omega, ← List.drop_drop,
    List.drop_left, show last + (pre.length : ℤ) - (first + pre.length) = last - first by omega,
    List.drop_append_of_le_length (by omega), List.take_append_of_le_length]
  rw [List.length_drop]
  omega

theorem range_of_slice {buf : Bytes} {first last : ℤ}
    (h : 0 ≤ first ∧ first ≤ last ∧ last ≤ buf.length) : ∃ s, range buf first last = .ok s := by
  rw [range, slice_of_range h]
  exact ⟨_, rfl⟩

theorem range_shift (pre post : Bytes) {l : Bytes} {first last : ℤ}
    (h : 0 ≤ first ∧ first ≤ last ∧ last ≤ l.length) :
    range (pre ++ (l ++ post)) (first + pre.length) (last + pre.length) = range l first last := by
  rw [range, slice_shift h, range]

/-- A text handed out behind `pos` is a range of the buffer. -/
theorem textRange_ok {buf : Bytes} {pos first last : ℤ} (h0 : 0 ≤ pos) (hlt : pos < first)
    (hle : first ≤ last) (hend : last + lengthOfCrLf ≤ buf.length) :
    0 ≤ first ∧ first ≤ last ∧ last ≤ buf.length := by
  unfold lengthOfCrLf at hend
  omega

theorem rangeOk_mono {buf : Bytes} {first last pos : ℤ} (h : 0 ≤ first ∧ first ≤ last ∧ last ≤ pos)
    (hpos : pos ≤ buf.length) : 0 ≤ first ∧ first ≤ last ∧ last ≤ buf.length :=
  ⟨h.1, h.2.1, le_trans h.2.2 hpos⟩

/-! ### `ServerResponseSplitter` -/

def ResponseSplitter.fresh (_ : ℤ) (o : List Response) : ResponseSplitter := ⟨[], o⟩

theorem responseSplitter_safe (buf : Bytes) : responseSplitter.Safe buf (fun _ _ => True) where
  mono _ _ := trivial
  onString _ _ _ _ _ := trivial
  onError {_ first last f} _ h0 hlt hle hend := by
    have hs := slice_of_range (textRange_ok h0 hlt hle hend)
    simp only [responseSplitter, ResponseSplitter.onError, hs]
    trivial
  onSplitPoint {back next f} _ h0 hle hend := by
    have hs := slice_of_range ⟨h0, hle, hend⟩
    simp only [responseSplitter, ResponseSplitter.onSplitPoint, ResponseSplitter.pushRsp,
      ResponseSplitter.pushNormalRsp, hs]
    split <;> trivial
  onArray _ := trivial

theorem Except.map_id {σ : Type} (r : Except Stop σ) : r.map (fun f => f) = r := by
  cases r <;> rfl

theorem responseSplitter_framed : responseSplitter.Framed ResponseSplitter.fresh
    ResponseSplitter.responses (fun _ r => r) (fun _ _ => True) where
  safe := responseSplitter_safe
  inv_fresh _ := trivial
  shift_zero _ := rfl
  shift_fresh _ _ _ := rfl
  out_shift _ _ := rfl
  out_fresh _ _ := rfl
  onString _ _ _ _ _ := rfl
  onError {pre l post pos first last f} _ h0 hlt hle hend := by
    unfold Shifted
    rw [Except.map_id]
    simp only [responseSplitter, ResponseSplitter.onError]
    rw [slice_shift ⟨by omega, hle, by unfold lengthOfCrLf at hend; omega⟩]
  onSplitPoint {pre l post back next f} _ h0 hle hend := by
    unfold Shifted
    rw [Except.map_id]
    simp only [responseSplitter, ResponseSplitter.onSplitPoint, ResponseSplitter.pushRsp,
      ResponseSplitter.pushNormalRsp]
    rw [slice_shift ⟨h0, hle, hend⟩]
  onArray := rfl
  out_onString h := by cases h; rfl
  out_onError {l first last f f'} h := by
    simp only [responseSplitter, ResponseSplitter.onError] at h
    cases hs : slice l first last with
    | none => rw [hs] at h; cases h
    | some e => rw [hs] at h; cases h; rfl
  out_onArray h := by cases h; rfl
  fresh_onSplitPoint {l back next f f'} _ h := by
    simp only [responseSplitter, ResponseSplitter.onSplitPoint] at h
    cases hr : f.pushRsp l back next with
    | error e => rw [hr] at h; cases h
    | ok r => rw [hr] at h; cases h; rfl

/-! ### Special command parsers -/

/-- Split points in order and not behind `pos`. -/
def PointsOk (pos : ℤ) (points : List ℤ) : Prop :=
  points.Pairwise (· ≤ ·) ∧ ∀ p ∈ points, 0 ≤ p ∧ p ≤ pos

theorem PointsOk.mono {p q : ℤ} {l : List ℤ} (h : p ≤ q) (hl : PointsOk p l) : PointsOk q l :=
  ⟨hl.1, fun x hx => ⟨(hl.2 x hx).1, le_trans (hl.2 x hx).2 h⟩⟩

theorem PointsOk.concat {p q : ℤ} {l : List ℤ} (hl : PointsOk p l) (h0 : 0 ≤ p) (h : p ≤ q) :
    PointsOk q (l ++ [q]) := by
  refine ⟨List.pairwise_append.mpr ⟨hl.1, List.pairwise_singleton _ _, ?_⟩, ?_⟩
  · intro a ha b hb
    rw [List.mem_singleton.mp hb]
    exact le_trans (hl.2 a ha).2 h
  · intro x hx
    rcases List.mem_append.mp hx with hx | hx
    · exact ⟨(hl.2 x hx).1, le_trans (hl.2 x hx).2 h⟩
    · rw [List.mem_singleton.mp hx]
      omega

theorem PointsOk.tail {pos p : ℤ} {l : List ℤ} (h : PointsOk pos (p :: l)) : PointsOk pos l :=
  ⟨(List.pairwise_cons.mp h.1).2, fun x hx => h.2 x (List.mem_cons_of_mem _ hx)⟩

theorem PointsOk.range {pos p q : ℤ} {l : List ℤ} (h : PointsOk pos (p :: l)) (hq : q ∈ l) :
    0 ≤ p ∧ p ≤ q ∧ q ≤ pos :=
  ⟨(h.2 p List.mem_cons_self).1, (List.pairwise_cons.mp h.1).1 q hq,
    (h.2 q (List.mem_cons_of_mem _ hq)).2⟩

namespace SpecialParser

/-- The positions of a parser are in order and not behind `pos`, and there are as many as the
strings it has seen ask for. -/
def Inv (pos : ℤ) : SpecialParser → Prop
  | eachKey _ points slots => PointsOk pos points ∧ points.length = slots.length + 1
  | mset points slots isKey =>
      PointsOk pos points ∧ points.length = 2 * slots.length + if isKey then 1 else 0
  | rename begin points _ _ index _ =>
      PointsOk pos (begin :: points) ∧ index ≤ 2 ∧ points.length = index + 1
  | subscribe begin _ => 0 ≤ begin ∧ begin ≤ pos
  | blockedListPop begin _ _ => 0 ≤ begin ∧ begin ≤ pos
  | eval begin _ _ _ => 0 ≤ begin ∧ begin ≤ pos
  | publish begin _ => 0 ≤ begin ∧ begin ≤ pos
  | keysInSlot start _ _ => 0 ≤ start ∧ start ≤ pos
  | _ => True

/-- The parser with `d` added to its positions. -/
def shift (d : ℤ) : SpecialParser → SpecialParser
  | eachKey kind points slots => eachKey kind (points.map (· + d)) slots
  | mset points slots isKey => mset (points.map (· + d)) slots isKey
  | rename begin points a b index bad => rename (begin + d) (points.map (· + d)) a b index bad
  | subscribe begin noArg => subscribe (begin + d) noArg
  | blockedListPop begin sc n => blockedListPop (begin + d) sc n
  | eval begin sc n k => eval (begin + d) sc n k
  | publish begin n => publish (begin + d) n
  | keysInSlot start n s => keysInSlot (start + d) n s
  | ping msg => ping msg
  | proxyStats => proxyStats
  | updateSlotMap => updateSlotMap
  | setRemotes r h c b => setRemotes r h c b

theorem Inv.mono {p q : ℤ} (h : p ≤ q) : ∀ {sp : SpecialParser}, sp.Inv p → sp.Inv q
  | eachKey _ _ _, hi => ⟨hi.1.mono h, hi.2⟩
  | mset _ _ _, hi => ⟨hi.1.mono h, hi.2⟩
  | rename _ _ _ _ _ _, hi => ⟨hi.1.mono h, hi.2⟩
  | subscribe _ _, hi => ⟨hi.1, le_trans hi.2 h⟩
  | blockedListPop _ _ _, hi => ⟨hi.1, le_trans hi.2 h⟩
  | eval _ _ _ _, hi => ⟨hi.1, le_trans hi.2 h⟩
  | publish _ _, hi => ⟨hi.1, le_trans hi.2 h⟩
  | keysInSlot _ _ _, hi => ⟨hi.1, le_trans hi.2 h⟩
  | ping _, _ => trivial
  | proxyStats, _ => trivial
  | updateSlotMap, _ => trivial
  | setRemotes _ _ _ _, _ => trivial

theorem atoiThrow_cases (env : Env) (a : Bytes) :
    (∃ i, atoiThrow env a = .ok i) ∨ ∃ b, atoiThrow env a = .error (.bad b) := by
  unfold atoiThrow
  cases atoi env.junk a with
  | some i => exact Or.inl ⟨i, rfl⟩
  | none => exact Or.inr ⟨_, rfl⟩

section
variable {env : Env} {buf : Bytes}

variable (env) in
theorem onStr_safe {sp : SpecialParser} {pos first last : ℤ} (hi : sp.Inv pos) (h0 : 0 ≤ pos)
    (hlt : pos < first) (hle : first ≤ last) (hend : last + lengthOfCrLf ≤ buf.length) :
    SafeAt Inv (last + lengthOfCrLf) (sp.onStr env buf first last) := by
  have hpos : pos ≤ last + lengthOfCrLf := by unfold lengthOfCrLf; omega
  obtain ⟨s, hs⟩ := range_of_slice (textRange_ok h0 hlt hle hend)
  cases sp with
  | ping msg => simp only [onStr, hs]; trivial
  | proxyStats => trivial
  | updateSlotMap => trivial
  | setRemotes remotes host isHost bad =>
      simp only [onStr, hs]
      cases bad with
      | true => trivial
      | false =>
          cases isHost with
          | true => trivial
          | false =>
              rcases atoiThrow_cases env s with ⟨i, hi⟩ | ⟨b, hb⟩
              · simp only [Except.bind, hi]; trivial
              · simp only [Except.bind, hb]; exact ⟨b, rfl⟩
  | eachKey kind points slots =>
      simp only [onStr, hs]
      exact ⟨hi.1.concat h0 hpos, by simp [hi.2]⟩
  | mset points slots isKey =>
      simp only [onStr, hs]
      have hlen := hi.2
      cases isKey with
      | true =>
          simp only [if_true] at hlen ⊢
          exact ⟨hi.1.concat h0 hpos, by
            simp only [List.length_append, List.length_singleton, Bool.false_eq_true, if_false]
            omega⟩
      | false =>
          simp only [Bool.false_eq_true, if_false] at hlen ⊢
          exact ⟨hi.1.concat h0 hpos, by simp [hlen]⟩
  | rename begin points a b index bad =>
      obtain ⟨hp, hindex, hlen⟩ := hi
      simp only [onStr, hs]
      by_cases h2 : index = 2
      · simp only [h2, if_true]
        exact ⟨hp.mono hpos, le_rfl, h2 ▸ hlen⟩
      · simp only [h2, if_false]
        exact ⟨hp.concat h0 hpos, by omega, by simp [hlen]⟩
  | subscribe begin noArg => exact ⟨hi.1, le_trans hi.2 hpos⟩
  | blockedListPop begin sc n => simp only [onStr, hs]; exact ⟨hi.1, le_trans hi.2 hpos⟩
  | eval begin sc n k =>
      simp only [onStr, hs]
      split
      · rcases atoiThrow_cases env s with ⟨i, ha⟩ | ⟨b, hb⟩
        · simp only [Except.bind, ha]; exact ⟨hi.1, le_trans hi.2 hpos⟩
        · simp only [Except.bind, hb]; exact ⟨b, rfl⟩
      · exact ⟨hi.1, le_trans hi.2 hpos⟩
      · exact ⟨hi.1, le_trans hi.2 hpos⟩
  | publish begin n => exact ⟨hi.1, le_trans hi.2 hpos⟩
  | keysInSlot start n slot =>
      simp only [onStr, hs]
      split
      · rcases atoiThrow_cases env s with ⟨i, ha⟩ | ⟨b, hb⟩
        · simp only [Except.bind, ha]; exact ⟨hi.1, le_trans hi.2 hpos⟩
        · simp only [Except.bind, hb]; exact ⟨b, rfl⟩
      · exact ⟨hi.1, le_trans hi.2 hpos⟩

theorem eachKeyCommands_ok (header : Bytes) {pos : ℤ} (hpos : pos ≤ buf.length) :
    ∀ (points : List ℤ) (slots : List ℕ), PointsOk pos points → points.length = slots.length + 1 →
      ∃ cs, eachKeyCommands buf header points slots = .ok cs
  | _, [], _, _ => ⟨[], by simp [eachKeyCommands]⟩
  | [], _ :: _, _, h => by simp at h
  | [_], _ :: _, _, h => by simp at h
  | p :: q :: points, s :: slots, hp, h => by
      obtain ⟨h0, hle, hend⟩ := hp.range (q := q) List.mem_cons_self
      obtain ⟨b, hb⟩ := range_of_slice (rangeOk_mono ⟨h0, hle, hend⟩ hpos)
      obtain ⟨cs, hcs⟩ := eachKeyCommands_ok header hpos (q :: points) slots hp.tail (by simpa using h)
      exact ⟨_, by rw [eachKeyCommands, hb]; simp only [Except.bind, hcs]; rfl⟩

theorem msetCommands_ok {pos : ℤ} (hpos : pos ≤ buf.length) :
    ∀ (points : List ℤ) (slots : List ℕ), PointsOk pos points →
      points.length = 2 * slots.length + 1 → ∃ cs, msetCommands buf points slots = .ok cs
  | _, [], _, _ => ⟨[], by simp [msetCommands]⟩
  | [], _ :: _, _, h => by simp at h
  | [_], _ :: _, _, h => by simp at h
  | [_, _], _ :: _, _, h => by simp only [List.length_cons, List.length_nil] at h; omega
  | p :: v :: q :: points, s :: slots, hp, h => by
      obtain ⟨h0, hle, hend⟩ := hp.range (q := q) (by simp)
      obtain ⟨b, hb⟩ := range_of_slice (rangeOk_mono ⟨h0, hle, hend⟩ hpos)
      obtain ⟨cs, hcs⟩ := msetCommands_ok hpos (q :: points) slots hp.tail.tail
        (by simp only [List.length_cons] at h ⊢; omega)
      exact ⟨_, by rw [msetCommands, hb]; simp only [Except.bind, hcs]; rfl⟩

/-- The three split points of `RenameCommandParser` at its end. -/
theorem rename_points {points : List ℤ} {index : ℕ} (hi : index = 2)
    (hlen : points.length = index + 1) : ∃ p q r, points = [p, q, r] := by
  subst hi
  match points, hlen with
  | [p, q, r], _ => exact ⟨p, q, r, rfl⟩

variable (env) in
theorem spawnCommands_ok {sp : SpecialParser} {last : ℤ} (o : Output) (hi : sp.Inv last)
    (hend : last ≤ buf.length) : ∃ o', sp.spawnCommands env buf last o = .ok o' := by
  have hrange : ∀ {begin : ℤ}, 0 ≤ begin ∧ begin ≤ last → ∃ b, range buf begin last = .ok b :=
    fun h => range_of_slice ⟨h.1, h.2, hend⟩
  cases sp with
  | ping msg => rw [spawnCommands]; split <;> exact ⟨_, rfl⟩
  | proxyStats => exact ⟨_, rfl⟩
  | updateSlotMap => exact ⟨_, rfl⟩
  | setRemotes remotes host isHost bad =>
      rw [spawnCommands]
      split
      · exact ⟨_, rfl⟩
      · split <;> exact ⟨_, rfl⟩
  | eachKey kind points slots =>
      rw [spawnCommands]
      split
      · exact ⟨_, rfl⟩
      · obtain ⟨cs, hcs⟩ := eachKeyCommands_ok kind.commandHeader hend points slots hi.1 hi.2
        rw [hcs]
        exact ⟨_, rfl⟩
  | mset points slots isKey =>
      rw [spawnCommands]
      split
      · exact ⟨_, rfl⟩
      · rename_i h
        have hk : isKey = true := by
          cases isKey
          · simp at h
          · rfl
        have hlen := hi.2
        rw [hk, if_pos rfl] at hlen
        obtain ⟨cs, hcs⟩ := msetCommands_ok hend points slots hi.1 hlen
        rw [hcs]
        exact ⟨_, rfl⟩
  | rename begin points a b index bad =>
      obtain ⟨hp, -, hlen⟩ := hi
      rw [spawnCommands]
      split
      · exact ⟨_, rfl⟩
      · rename_i h
        obtain ⟨p, q, r, rfl⟩ := rename_points (by tauto) hlen
        obtain ⟨x, hx⟩ := range_of_slice (rangeOk_mono (hp.range (q := r) (by simp)) hend)
        obtain ⟨y, hy⟩ := range_of_slice (rangeOk_mono (hp.tail.range (q := q) (by simp)) hend)
        obtain ⟨z, hz⟩ := range_of_slice (rangeOk_mono (hp.tail.tail.range (q := r) (by simp)) hend)
        split
        · exact ⟨_, by simp [hx, Except.map]; rfl⟩
        · exact ⟨_, by simp [hy, hz, Except.map, Except.bind]; rfl⟩
  | subscribe begin noArg =>
      obtain ⟨b, hb⟩ := hrange hi
      rw [spawnCommands, hb]
      split <;> exact ⟨_, rfl⟩
  | blockedListPop begin sc n =>
      obtain ⟨b, hb⟩ := hrange hi
      rw [spawnCommands, hb]
      split <;> exact ⟨_, rfl⟩
  | eval begin sc n k =>
      obtain ⟨b, hb⟩ := hrange hi
      rw [spawnCommands, hb]
      split <;> exact ⟨_, rfl⟩
  | publish begin n =>
      obtain ⟨b, hb⟩ := hrange hi
      rw [spawnCommands, hb]
      split <;> exact ⟨_, rfl⟩
  | keysInSlot start n slot =>
      obtain ⟨b, hb⟩ := hrange hi
      rw [spawnCommands, hb]
      split <;> exact ⟨_, rfl⟩

end

section
variable {env : Env} {pre l post : Bytes}

theorem onStr_shift (sp : SpecialParser) {first last : ℤ}
    (h : 0 ≤ first ∧ first ≤ last ∧ last ≤ l.length) :
    (sp.shift pre.length).onStr env (pre ++ (l ++ post)) (first + pre.length) (last + pre.length) =
      (sp.onStr env l first last).map (shift pre.length) := by
  have hend : last + pre.length + lengthOfCrLf = last + lengthOfCrLf + pre.length := by omega
  obtain ⟨s, hs⟩ := range_of_slice h
  have hs' := range_shift pre post h
  rw [hs] at hs'
  cases sp with
  | ping msg => simp only [shift, onStr, hs, hs']; rfl
  | proxyStats => rfl
  | updateSlotMap => rfl
  | setRemotes remotes host isHost bad =>
      simp only [shift, onStr, hs, hs']
      cases bad with
      | true => rfl
      | false =>
          cases isHost with
          | true => rfl
          | false => cases ha : atoiThrow env s <;> simp [Except.bind, Except.map, ha, shift]
  | eachKey kind points slots =>
      simp only [shift, onStr, hs, hs', hend, Except.map, List.map_append, List.map_cons, List.map_nil]
  | mset points slots isKey =>
      cases isKey <;>
        simp [shift, onStr, hs, hs', hend, Except.map, List.map_append]
  | rename begin points a b index bad =>
      simp only [shift, onStr, hs, hs', hend]
      split <;> simp [Except.map, shift]
  | subscribe begin noArg => rfl
  | blockedListPop begin sc n => simp only [shift, onStr, hs, hs', Except.map]
  | eval begin sc n k =>
      simp only [shift, onStr, hs, hs']
      split
      · cases ha : atoiThrow env s <;> simp [Except.bind, Except.map, ha, shift]
      · rfl
      · rfl
  | publish begin n => rfl
  | keysInSlot start n slot =>
      simp only [shift, onStr, hs, hs']
      split
      · cases ha : atoiThrow env s <;> simp [Except.bind, Except.map, ha, shift]
      · rfl

theorem eachKeyCommands_shift (header : Bytes) {pos : ℤ} (hpos : pos ≤ l.length) :
    ∀ (points : List ℤ) (slots : List ℕ), PointsOk pos points →
      eachKeyCommands (pre ++ (l ++ post)) header (points.map (· + (pre.length : ℤ))) slots =
        eachKeyCommands l header points slots
  | _, [], _ => by simp [eachKeyCommands]
  | [], _ :: _, _ => rfl
  | [_], _ :: _, _ => rfl
  | p :: q :: points, s :: slots, hp => by
      obtain ⟨h0, hle, hend⟩ := hp.range (q := q) List.mem_cons_self
      have ih := eachKeyCommands_shift header hpos (q :: points) slots hp.tail
      simp only [List.map_cons] at ih ⊢
      rw [eachKeyCommands, eachKeyCommands, range_shift pre post ⟨h0, hle, le_trans hend hpos⟩, ih]

theorem msetCommands_shift {pos : ℤ} (hpos : pos ≤ l.length) :
    ∀ (points : List ℤ) (slots : List ℕ), PointsOk pos points →
      msetCommands (pre ++ (l ++ post)) (points.map (· + (pre.length : ℤ))) slots =
        msetCommands l points slots
  | _, [], _ => by simp [msetCommands]
  | [], _ :: _, _ => rfl
  | [_], _ :: _, _ => rfl
  | [_, _], _ :: _, _ => rfl
  | p :: v :: q :: points, s :: slots, hp => by
      obtain ⟨h0, hle, hend⟩ := hp.range (q := q) (by simp)
      have ih := msetCommands_shift hpos (q :: points) slots hp.tail.tail
      simp only [List.map_cons] at ih ⊢
      rw [msetCommands, msetCommands, range_shift pre post ⟨h0, hle, le_trans hend hpos⟩, ih]

variable (env pre post) in
theorem spawnCommands_shift {sp : SpecialParser} {last : ℤ} (o : Output) (hi : sp.Inv last)
    (hend : last ≤ l.length) :
    (sp.shift pre.length).spawnCommands env (pre ++ (l ++ post)) (last + pre.length) o =
      sp.spawnCommands env l last o := by
  have hrange : ∀ {begin : ℤ}, 0 ≤ begin ∧ begin ≤ last →
      range (pre ++ (l ++ post)) (begin + pre.length) (last + pre.length) = range l begin last :=
    fun h => range_shift pre post ⟨h.1, h.2, hend⟩
  cases sp with
  | ping msg => rfl
  | proxyStats => rfl
  | updateSlotMap => rfl
  | setRemotes remotes host isHost bad => rfl
  | eachKey kind points slots =>
      simp only [shift, spawnCommands, eachKeyCommands_shift kind.commandHeader hend points slots hi.1]
  | mset points slots isKey =>
      simp only [shift, spawnCommands, msetCommands_shift hend points slots hi.1]
  | rename begin points a b index bad =>
      obtain ⟨hp, -, hlen⟩ := hi
      simp only [shift, spawnCommands]
      split
      · rfl
      · rename_i h
        obtain ⟨p, q, r, rfl⟩ := rename_points (by tauto) hlen
        simp only [List.map_cons, List.map_nil, List.getD_cons_zero, List.getD_cons_succ]
        rw [range_shift pre post (rangeOk_mono (hp.range (q := r) (by simp)) hend),
          range_shift pre post (rangeOk_mono (hp.tail.range (q := q) (by simp)) hend),
          range_shift pre post (rangeOk_mono (hp.tail.tail.range (q := r) (by simp)) hend)]
  | subscribe begin noArg => simp only [shift, spawnCommands, hrange hi]
  | blockedListPop begin sc n => simp only [shift, spawnCommands, hrange hi]
  | eval begin sc n k => simp only [shift, spawnCommands, hrange hi]
  | publish begin n => simp only [shift, spawnCommands, hrange hi]
  | keysInSlot start n slot => simp only [shift, spawnCommands, hrange hi]

theorem shift_zero (sp : SpecialParser) : sp.shift 0 = sp := by
  cases sp <;> simp [shift]

end

end SpecialParser

/-- A parser is created with the two positions it is given. -/
theorem Special.create_inv (k : Special) {begin start : ℤ} (h0 : 0 ≤ begin) (hle : begin ≤ start) :
    (k.create begin start).Inv start := by
  have hs : PointsOk start [start] :=
    ⟨List.pairwise_singleton _ _, by simp only [List.mem_singleton]; omega⟩
  have hb : PointsOk start [begin, start] :=
    ⟨by simp [hle], by simp only [List.mem_cons, List.not_mem_nil, or_false]; omega⟩
  cases k <;> simp [Special.create, SpecialParser.Inv, hs, hb, h0, hle, le_trans h0 hle]

theorem Special.create_shift (k : Special) (begin start d : ℤ) :
    k.create (begin + d) (start + d) = (k.create begin start).shift d := by
  cases k <;> rfl

/-! ### `ClientCommandSplitter` -/

namespace ClientSplitter

/-- What `_on_str` says about the other members. -/
def Mode (pos : ℤ) (bad : Bool) (parser : Option SpecialParser) : OnStr → Prop
  | .commandHead => bad = false ∧ parser = none
  | .commandKey => bad = true ∧ parser = none
  | .nop => parser = none
  | .special => bad = false ∧ ∃ sp, parser = some sp ∧ sp.Inv pos

/-- The positions are not behind `pos`, and there is a parser when strings go to it. -/
structure Inv (pos : ℤ) (c : ClientSplitter) : Prop where
  begin : 0 ≤ c.lastCommandBegin ∧ c.lastCommandBegin ≤ pos
  mode : Mode pos c.lastCommandIsBad c.specialParser c.onStr

/-- The splitter with `d` added to its positions. -/
def shift (d : ℤ) (c : ClientSplitter) : ClientSplitter :=
  { c with
    lastCommandBegin := c.lastCommandBegin + d
    specialParser := c.specialParser.map (SpecialParser.shift d) }

theorem Inv.mono {p q : ℤ} {c : ClientSplitter} (h : p ≤ q) (hi : c.Inv p) : c.Inv q := by
  refine ⟨⟨hi.begin.1, le_trans hi.begin.2 h⟩, ?_⟩
  have hm := hi.mode
  cases hf : c.onStr with
  | special =>
      rw [hf] at hm
      obtain ⟨hb, sp, hsp, hin⟩ := hm
      exact ⟨hb, sp, hsp, hin.mono h⟩
  | commandHead => rw [hf] at hm; exact hm
  | commandKey => rw [hf] at hm; exact hm
  | nop => rw [hf] at hm; exact hm

theorem inv_new {p : ℤ} (h : 0 ≤ p) (o : Output) : (new p o).Inv p := ⟨⟨h, le_rfl⟩, rfl, rfl⟩

theorem onString_safe {env : Env} {buf : Bytes} {c : ClientSplitter} {pos first last : ℤ}
    (hi : c.Inv pos) (h0 : 0 ≤ pos) (hlt : pos < first) (hle : first ≤ last)
    (hend : last + lengthOfCrLf ≤ buf.length) :
    SafeAt Inv (last + lengthOfCrLf) (c.onString env buf first last) := by
  have hpos : pos ≤ last + lengthOfCrLf := by unfold lengthOfCrLf; omega
  obtain ⟨s, hs⟩ := range_of_slice (textRange_ok h0 hlt hle hend)
  have hmono := hi.mono hpos
  have hm := hi.mode
  unfold onString
  cases hf : c.onStr with
  | commandHead =>
      rw [hf] at hm
      simp only [selectCommandParser, hs, Except.map]
      split
      · exact ⟨hmono.begin, rfl, hm.2⟩
      · split
        · rename_i k hk
          exact ⟨hmono.begin, hm.1, _, rfl, k.create_inv hi.begin.1 (le_trans hi.begin.2 hpos)⟩
        · exact ⟨hmono.begin, hm.2⟩
  | commandKey =>
      rw [hf] at hm
      simp only [onCommandKey, hs, Except.map]
      exact ⟨hmono.begin, hm.2⟩
  | nop => exact hmono
  | special =>
      rw [hf] at hm
      obtain ⟨hb, sp, hsp, hin⟩ := hm
      have hsafe := SpecialParser.onStr_safe env hin h0 hlt hle hend
      simp only [specialParserOnStr, hsp]
      cases hr : sp.onStr env buf first last with
      | error e => rw [hr] at hsafe; exact hsafe
      | ok sp' =>
          rw [hr] at hsafe
          refine ⟨hmono.begin, ?_⟩
          simp only [hf]
          exact ⟨hb, sp', rfl, hsafe⟩

theorem Inv.parser {pos : ℤ} {c : ClientSplitter} (hi : c.Inv pos) : c.specialParser = none ∨
    c.lastCommandIsBad = false ∧ ∃ sp, c.specialParser = some sp ∧ sp.Inv pos := by
  have hm := hi.mode
  cases hf : c.onStr <;> rw [hf] at hm
  · exact Or.inl hm.2
  · exact Or.inl hm.2
  · exact Or.inl hm
  · exact Or.inr hm

/-- After a split point the splitter is as new. -/
theorem onSplitPoint_ok (env : Env) {buf : Bytes} {c : ClientSplitter} {next : ℤ} (hi : c.Inv next)
    (hend : next ≤ buf.length) : ∃ o, c.onSplitPoint env buf next = .ok (new next o) := by
  unfold onSplitPoint
  dsimp only
  rcases hi.parser with hnone | ⟨hb, sp, hsp, hin⟩
  · obtain ⟨b, hr⟩ := range_of_slice ⟨hi.begin.1, hi.begin.2, hend⟩
    simp only [hnone, hr]
    split
    · exact ⟨_, rfl⟩
    · exact ⟨_, rfl⟩
  · obtain ⟨o', ho⟩ := SpecialParser.spawnCommands_ok env c.out hin hend
    simp only [hb, hsp, ho]
    exact ⟨o', rfl⟩

theorem onString_shift {env : Env} {pre l post : Bytes} {c : ClientSplitter} {pos first last : ℤ}
    (hi : c.Inv pos) (h : 0 ≤ first ∧ first ≤ last ∧ last ≤ l.length) :
    (c.shift pre.length).onString env (pre ++ (l ++ post)) (first + pre.length) (last + pre.length) =
      (c.onString env l first last).map (shift pre.length) := by
  have hrange := range_shift pre post h
  have hm := hi.mode
  have hend : last + pre.length + lengthOfCrLf = last + lengthOfCrLf + pre.length := by omega
  obtain ⟨s, hs⟩ := range_of_slice h
  rw [hs] at hrange
  unfold onString
  simp only [shift]
  cases hf : c.onStr with
  | commandHead =>
      simp only [selectCommandParser, hrange, hs, Except.map, hend, Special.create_shift]
      split
      · simp [shift]
      · cases findSpecial env (s.map toupper) <;> simp [shift]
  | commandKey => simp only [onCommandKey, hrange, hs, Except.map, shift]
  | nop => simp [Except.map, shift, hf]
  | special =>
      rw [hf] at hm
      obtain ⟨hb, sp, hsp, hin⟩ := hm
      simp only [specialParserOnStr, hsp, Option.map_some, SpecialParser.onStr_shift sp h]
      cases sp.onStr env l first last <;> simp [Except.map, shift, hf]

theorem onSplitPoint_shift {env : Env} {pre l post : Bytes} {c : ClientSplitter} {next : ℤ}
    (hi : c.Inv next) (hend : next ≤ l.length) :
    (c.shift pre.length).onSplitPoint env (pre ++ (l ++ post)) (next + pre.length) =
      (c.onSplitPoint env l next).map (shift pre.length) := by
  unfold onSplitPoint
  dsimp only [shift]
  rcases hi.parser with hnone | ⟨hb, sp, hsp, hin⟩
  · have hr := range_shift pre post ⟨hi.begin.1, hi.begin.2, hend⟩
    simp only [hnone, hr, Option.map_none]
    split
    · rfl
    · cases range l c.lastCommandBegin next <;> rfl
  · have hsp' := SpecialParser.spawnCommands_shift env pre post c.out hin hend
    simp only [hb, hsp, Option.map_some, hsp']
    cases sp.spawnCommands env l next c.out <;> rfl

theorem onString_out {env : Env} {buf : Bytes} {first last : ℤ} {c c' : ClientSplitter}
    (h : c.onString env buf first last = .ok c') : c'.out = c.out := by
  unfold onString at h
  cases hf : c.onStr with
  | commandHead =>
      simp only [hf, selectCommandParser] at h
      cases hr : range buf first last with
      | error e => rw [hr] at h; cases h
      | ok s =>
          rw [hr] at h
          simp only [Except.map, Except.ok.injEq] at h
          subst h
          split
          · rfl
          · split <;> rfl
  | commandKey =>
      simp only [hf, onCommandKey] at h
      cases hr : range buf first last with
      | error e => rw [hr] at h; cases h
      | ok s => rw [hr] at h; cases h; rfl
  | nop => simp only [hf] at h; cases h; rfl
  | special =>
      simp only [hf, specialParserOnStr] at h
      cases hsp : c.specialParser with
      | none => rw [hsp] at h; cases h
      | some sp =>
          simp only [hsp] at h
          cases hr : sp.onStr env buf first last with
          | error e => rw [hr] at h; cases h
          | ok sp' => rw [hr] at h; cases h; rfl

theorem onSplitPoint_fresh {env : Env} {buf : Bytes} {next : ℤ} {c c' : ClientSplitter}
    (hi : c.Inv next) (h : c.onSplitPoint env buf next = .ok c') : c' = new next c'.out := by
  unfold onSplitPoint at h
  dsimp only at h
  rcases hi.parser with hnone | ⟨hb, sp, hsp, -⟩
  · simp only [hnone] at h
    split at h
    · cases h; rfl
    · cases hr : range buf c.lastCommandBegin next with
      | error e => rw [hr] at h; cases h
      | ok b => rw [hr] at h; cases h; rfl
  · simp only [hb, hsp] at h
    cases hr : sp.spawnCommands env buf next c.out with
    | error e => rw [hr] at h; cases h
    | ok o => rw [hr] at h; cases h; rfl

end ClientSplitter

theorem clientSplitter_safe (env : Env) (buf : Bytes) :
    (clientSplitter env).Safe buf ClientSplitter.Inv where
  mono h hi := hi.mono h
  onString hi h0 hlt hle hend := ClientSplitter.onString_safe hi h0 hlt hle hend
  onError hi h0 hlt hle hend := hi.mono (by unfold lengthOfCrLf; omega)
  onSplitPoint hi h0 hle hend := by
    obtain ⟨o, ho⟩ := ClientSplitter.onSplitPoint_ok env hi hend
    simp only [clientSplitter, ho]
    exact ClientSplitter.inv_new (le_trans h0 hle) o
  onArray {pos empty size f} hi := by
    simp only [clientSplitter, ClientSplitter.onArray]
    split
    · exact ⟨_, rfl⟩
    · split
      · exact ⟨_, rfl⟩
      · exact hi

theorem clientSplitter_framed (env : Env) : (clientSplitter env).Framed ClientSplitter.new
    ClientSplitter.out ClientSplitter.shift ClientSplitter.Inv where
  safe := clientSplitter_safe env
  inv_fresh h := ClientSplitter.inv_new h _
  shift_zero c := by
    have h : SpecialParser.shift 0 = id := funext SpecialParser.shift_zero
    simp [ClientSplitter.shift, h]
  shift_fresh _ _ _ := rfl
  out_shift _ _ := rfl
  out_fresh _ _ := rfl
  onString hi h0 hlt hle hend := ClientSplitter.onString_shift hi
    ⟨by omega, hle, by unfold lengthOfCrLf at hend; omega⟩
  onError _ _ _ _ _ := rfl
  onSplitPoint hi _ _ hend := ClientSplitter.onSplitPoint_shift hi hend
  onArray {d empty size f} := by
    simp only [Shifted, clientSplitter, ClientSplitter.onArray]
    split
    · rfl
    · split <;> rfl
  out_onString h := ClientSplitter.onString_out h
  out_onError h := by cases h; rfl
  out_onArray {empty size f f'} h := by
    simp only [clientSplitter, ClientSplitter.onArray] at h
    split at h
    · cases h
    · split at h
      · cases h
      · cases h; rfl
  fresh_onSplitPoint hi h := ClientSplitter.onSplitPoint_fresh hi h

/-! ### Progress -/

end Cerberus
