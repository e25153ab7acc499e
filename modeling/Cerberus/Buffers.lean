import Cerberus.Message

/-! # Output buffers

The embedding of `BufferSet` (`core/buffer.cpp`).  A set holds references to buffers, not
their bytes: the same buffer belongs to a command and is replaced when its response arrives,
so `writev` looks the bytes up when it runs (`content`).

The socket is a list of answers to the successive calls of `write` and `writev`; behind the
last one it answers `EAGAIN`.  A call for no bytes at all returns 0 without being asked.
Sizes are those of buffers below `2 ^ 31` bytes, where the conversions to `int` change
nothing; the one subtraction that can go below zero is that of `_1st_buf_offset` from the
size of the first buffer, and the sum it starts is an integer for that reason. -/

namespace Cerberus

/-- What the socket answers to `write` or `writev`: the number of bytes it takes, or `-1` with
an `errno` of one of the three kinds `on_error` distinguishes. -/
inductive WriteAnswer where
  | took (n : ℕ)
  | again
  | ioError
  | sysError
deriving DecidableEq, Repr

/-- How an output function leaves: `IOError`, `SystemError`, or with an access outside of a
buffer. -/
inductive WriteThrow where
  | io
  | system
  | overrun
deriving DecidableEq, Repr

/-- What `write_single` and `write_vec` have done: how many buffers are written, the offset
they leave in `*first_offset`, the bytes the socket took, its further answers, and the
exception if there was one. -/
structure Written where
  count : ℕ
  offset : ℕ
  taken : Bytes
  script : List WriteAnswer
  thrown : Option WriteThrow
deriving DecidableEq, Repr

/-- `write_single(fd, buf, buf_len, offset)` -/
def writeSingle (buf : Bytes) : List WriteAnswer → ℕ → Written
  | script, offset =>
      if buf.length ≤ offset then ⟨1, offset, [], script, none⟩
      else match script with
      | [] => ⟨0, offset, [], [], none⟩
      | .again :: script => ⟨0, offset, [], script, none⟩
      | .ioError :: script => ⟨0, offset, [], script, some .io⟩
      | .sysError :: script => ⟨0, offset, [], script, some .system⟩
      | .took n :: script =>
          let n := min n (buf.length - offset)
          let r := writeSingle buf script (offset + n)
          { r with taken := (buf.drop offset).take n ++ r.taken }

/-- The inner loop of `write_vec`: skip `nwritten` bytes.  It gives what is left, how many
buffers have been passed, and the offset into the first that is left. -/
def advance : List Bytes → ℕ → ℕ → List Bytes × ℕ × ℕ
  | [], _, offset => ([], 0, offset)
  | b :: iov, n, offset =>
      if b.length ≤ n then
        let r := advance iov (n - b.length) 0
        (r.1, r.2.1 + 1, r.2.2)
      else (b.drop n :: iov, 0, offset + n)

/-- The loop of `write_vec`; `iov` is what is left of the vector. -/
def writeVecLoop : List WriteAnswer → List Bytes → ℕ → ℕ → Written
  | script, iov, written, offset =>
      if iov.flatten.length = 0 then ⟨written + iov.length, offset, [], script, none⟩
      else match script with
      | [] => ⟨written, offset, [], [], none⟩
      | .again :: script => ⟨written, offset, [], script, none⟩
      | .ioError :: script => ⟨written, offset, [], script, some .io⟩
      | .sysError :: script => ⟨written, offset, [], script, some .system⟩
      | .took n :: script =>
          if iov.flatten.length ≤ n then ⟨written + iov.length, offset, iov.flatten, script, none⟩
          else if n = 0 then ⟨written, offset, [], script, none⟩
          else
            let a := advance iov n offset
            let r := writeVecLoop script a.1 (written + a.2.1) a.2.2
            { r with taken := iov.flatten.take n ++ r.taken }

/-- `write_vec(fd, iovcnt, iov, total, first_offset)` -/
def writeVec (script : List WriteAnswer) (iov : List Bytes) (offset : ℕ) : Written :=
  match iov with
  | [buf] => writeSingle buf script offset
  | [] => ⟨0, offset, [], script, none⟩
  | buf :: iov =>
      if offset ≤ buf.length then writeVecLoop script (buf.drop offset :: iov) 0 offset
      else ⟨0, offset, [], script, some .overrun⟩

/-- `IOV_MAX` -/
def iovMax : ℕ := 1024

/-- `WRITEV_MAX_SIZE` -/
def writevMaxSize : ℤ := 2 * 1024 * 1024

/-- The loop of `next_group_to_write`, which has chosen `i` buffers of `bulk` bytes. -/
def nextGroupLoop : List Bytes → ℤ → ℕ → ℕ
  | [], _, i => i
  | b :: bufs, bulk, i =>
      if i < iovMax ∧ 0 ≤ bulk + b.length ∧ bulk + b.length ≤ writevMaxSize then
        nextGroupLoop bufs (bulk + b.length) (i + 1)
      else i

/-- `next_group_to_write`: the number of buffers to write at once. -/
def nextGroupToWrite (bufs : List Bytes) (offset : ℕ) : ℕ :=
  match bufs with
  | [] => 0
  | b :: bufs => nextGroupLoop bufs ((b.length : ℤ) - offset) 1

/-- The members of `BufferSet`. -/
structure BufferSet (ρ : Type) where
  bufArr : List ρ
  firstBufOffset : ℕ
deriving DecidableEq, Repr

/-- How `writev` comes back. -/
inductive FlushEnd where
  | all
  | blocked
  | threw (e : WriteThrow)
deriving DecidableEq, Repr

/-- What `writev` has done. -/
structure Flushed (ρ : Type) where
  set : BufferSet ρ
  taken : Bytes
  script : List WriteAnswer
  ended : FlushEnd
deriving DecidableEq, Repr

namespace BufferSet
variable {ρ : Type}

def new : BufferSet ρ := ⟨[], 0⟩

def append (s : BufferSet ρ) (buf : ρ) : BufferSet ρ := { s with bufArr := s.bufArr ++ [buf] }

/-- `clear()`; the offset stays. -/
def clear (s : BufferSet ρ) : BufferSet ρ := { s with bufArr := [] }

def empty (s : BufferSet ρ) : Bool := s.bufArr.isEmpty

variable (content : ρ → Bytes)

/-- The loop of `writev`, at most `fuel` times round. -/
def writevLoop : ℕ → List WriteAnswer → BufferSet ρ → Flushed ρ
  | 0, script, s => ⟨s, [], script, .all⟩
  | fuel + 1, script, s =>
      if s.bufArr.isEmpty then ⟨s, [], script, .all⟩
      else
        let bufs := s.bufArr.map content
        let iovcnt := nextGroupToWrite bufs s.firstBufOffset
        let w := writeVec script (bufs.take iovcnt) s.firstBufOffset
        match w.thrown with
        | some e => ⟨{ s with firstBufOffset := w.offset }, w.taken, w.script, .threw e⟩
        | none =>
            if w.count < iovcnt then
              ⟨⟨s.bufArr.drop w.count, w.offset⟩, w.taken, w.script, .blocked⟩
            else
              let r := writevLoop fuel w.script ⟨s.bufArr.drop w.count, 0⟩
              { r with taken := w.taken ++ r.taken }

/-- `writev(fd)`; every round takes a buffer away. -/
def writev (script : List WriteAnswer) (s : BufferSet ρ) : Flushed ρ :=
  s.writevLoop content s.bufArr.length script

/-- The bytes that are still to be written. -/
def pending (s : BufferSet ρ) : Bytes := ((s.bufArr.map content).flatten).drop s.firstBufOffset

/-- The offset lies within the first buffer, before its end unless nothing is written yet. -/
def OffsetOk (s : BufferSet ρ) : Prop :=
  match s.bufArr with
  | [] => s.firstBufOffset = 0
  | b :: _ => s.firstBufOffset = 0 ∨ s.firstBufOffset < (content b).length

end BufferSet

/-- The socket takes bytes or none, and has no error to report. -/
def Quiet (script : List WriteAnswer) : Prop := ∀ a ∈ script, a ≠ .ioError ∧ a ≠ .sysError

/-- The socket has no room. -/
def WriteAnswer.full : WriteAnswer → Bool
  | .again => true
  | .took n => n == 0
  | _ => false

/-- Once the socket has no room it has none from then on. -/
def Steady : List WriteAnswer → Prop
  | [] => True
  | a :: script => if a.full then ∀ b ∈ script, b.full = true else Steady script

theorem Steady.of_full : ∀ {script : List WriteAnswer}, (∀ a ∈ script, a.full = true) → Steady script
  | [], _ => trivial
  | a :: script, h => by
      rw [Steady, if_pos (h a List.mem_cons_self)]
      exact fun b hb => h b (List.mem_cons_of_mem _ hb)

theorem Steady.tail {a : WriteAnswer} {script : List WriteAnswer} (h : Steady (a :: script)) :
    Steady script := by
  rw [Steady] at h
  split at h
  · exact .of_full h
  · exact h

theorem Steady.suffix {script : List WriteAnswer} : ∀ {script' : List WriteAnswer},
    script <:+ script' → Steady script' → Steady script
  | [], h, _ => by
      rw [List.suffix_nil.mp h]
      trivial
  | _ :: _, h, hs => by
      rcases List.suffix_cons_iff.mp h with rfl | h
      · exact hs
      · exact hs.tail.suffix h

theorem Steady.full {a : WriteAnswer} {script : List WriteAnswer} (h : Steady (a :: script))
    (ha : a.full = true) : ∀ b ∈ script, b.full = true := by
  rw [Steady, if_pos ha] at h
  exact h

/-! ### One call -/

/-- What is left of the vector `bufs` when `written` buffers and `offset` bytes of the next one
have been written. -/
def Rest (bufs : List Bytes) (written offset : ℕ) (iov : List Bytes) : Prop :=
  ∃ b tail, bufs.drop written = b :: tail ∧ (offset = 0 ∨ offset < b.length) ∧
    iov = b.drop offset :: tail

theorem Rest.flatten {bufs iov : List Bytes} {written offset : ℕ} (h : Rest bufs written offset iov) :
    iov.flatten = (bufs.drop written).flatten.drop offset := by
  obtain ⟨b, tail, hb, ho, rfl⟩ := h
  rw [hb, List.flatten_cons, List.flatten_cons, List.drop_append_of_le_length (by omega)]

theorem Rest.length {bufs iov : List Bytes} {written offset : ℕ} (h : Rest bufs written offset iov) :
    written + iov.length = bufs.length := by
  obtain ⟨b, tail, hb, -, rfl⟩ := h
  have := congrArg List.length hb
  rw [List.length_drop, List.length_cons] at this
  rw [List.length_cons]
  omega

/-- Fewer bytes than are left: `advance` stops within a buffer. -/
theorem advance_rest {bufs : List Bytes} : ∀ (iov : List Bytes) (written offset n : ℕ),
    Rest bufs written offset iov → n < iov.flatten.length →
    Rest bufs (written + (advance iov n offset).2.1) (advance iov n offset).2.2 (advance iov n offset).1 ∧
      (advance iov n offset).1.flatten = iov.flatten.drop n
  | [], _, _, _, _, hn => by simp at hn
  | c :: iov, written, offset, n, h, hn => by
      obtain ⟨b, tail, hb, ho, hc⟩ := h
      obtain ⟨rfl, rfl⟩ := List.cons.inj hc
      rw [List.flatten_cons, List.length_append] at hn
      unfold advance
      split
      · rename_i hle
        -- the buffer is passed, so another one follows
        have hne : iov ≠ [] := by
          rintro rfl
          simp only [List.flatten_nil, List.length_nil] at hn
          omega
        obtain ⟨b', tail', rfl⟩ := List.exists_cons_of_ne_nil hne
        have hnext : Rest bufs (written + 1) 0 (b' :: tail') :=
          ⟨b', tail', by rw [← List.drop_drop, hb]; rfl, Or.inl rfl, rfl⟩
        obtain ⟨hrest, hflat⟩ := advance_rest (b' :: tail') (written + 1) 0 (n - (b.drop offset).length)
          hnext (by omega)
        refine ⟨?_, ?_⟩
        · rw [show written + ((advance (b' :: tail') (n - (b.drop offset).length) 0).2.1 + 1) =
            written + 1 + (advance (b' :: tail') (n - (b.drop offset).length) 0).2.1 by omega]
          exact hrest
        · rw [hflat, @List.flatten_cons _ (b.drop offset), List.drop_append, List.drop_of_length_le hle,
            List.nil_append]
      · rename_i hlt
        rw [List.length_drop] at hlt
        refine ⟨⟨b, iov, hb, by dsimp only; omega, by rw [List.drop_drop]⟩, ?_⟩
        rw [List.flatten_cons, List.flatten_cons, List.drop_append_of_le_length (by rw [List.length_drop]; omega)]

/-- What a call does with the vector `bufs`, of which `todo` was left: it writes all of it, or
stops within a buffer. -/
structure Written.Ok (bufs : List Bytes) (todo : Bytes) (w : Written) : Prop where
  thrown : w.thrown ≠ some .overrun
  count : w.thrown = none → w.count ≤ bufs.length
  all : w.thrown = none → w.count = bufs.length → w.taken = todo
  part : w.thrown = none → w.count < bufs.length → ∃ iov, Rest bufs w.count w.offset iov ∧
    iov.flatten ≠ [] ∧ w.taken ++ iov.flatten = todo
  sent : w.taken <+: todo

theorem Written.Ok.taken {bufs : List Bytes} {todo : Bytes} {n : ℕ} {w : Written}
    (h : w.Ok bufs (todo.drop n)) : Written.Ok bufs todo { w with taken := todo.take n ++ w.taken } where
  thrown := h.thrown
  count := h.count
  all ht hc := by
    show todo.take n ++ w.taken = todo
    rw [h.all ht hc]
    exact List.take_append_drop _ _
  part ht hc := by
    obtain ⟨iov, hrest, hne, hflat⟩ := h.part ht hc
    refine ⟨iov, hrest, hne, ?_⟩
    show todo.take n ++ w.taken ++ iov.flatten = todo
    rw [List.append_assoc, hflat]
    exact List.take_append_drop _ _
  sent := by
    obtain ⟨rest, hrest⟩ := h.sent
    refine ⟨rest, ?_⟩
    show todo.take n ++ w.taken ++ rest = todo
    rw [List.append_assoc, hrest]
    exact List.take_append_drop _ _

theorem writeSingle_ok (buf : Bytes) : ∀ (script : List WriteAnswer) (offset : ℕ),
    offset ≤ buf.length → (writeSingle buf script offset).Ok [buf] (buf.drop offset)
  | script, offset, ho => by
      unfold writeSingle
      split
      · rename_i hle
        refine ⟨by simp, by simp, fun _ _ => ?_, fun _ h => absurd h (by simp), List.nil_prefix⟩
        rw [List.drop_of_length_le hle]
      · rename_i hlt
        have hrest : ∃ iov, Rest [buf] 0 offset iov ∧ iov.flatten ≠ [] ∧ [] ++ iov.flatten = buf.drop offset :=
          ⟨[buf.drop offset], ⟨buf, [], rfl, Or.inr (by omega), rfl⟩, by simpa using hlt, by simp⟩
        match script with
        | [] => exact ⟨by simp, by simp, fun _ h => absurd h (by simp), fun _ _ => hrest, List.nil_prefix⟩
        | .again :: script => exact ⟨by simp, by simp, fun _ h => absurd h (by simp), fun _ _ => hrest, List.nil_prefix⟩
        | .ioError :: script => exact ⟨by simp, by simp, nofun, nofun, List.nil_prefix⟩
        | .sysError :: script => exact ⟨by simp, by simp, nofun, nofun, List.nil_prefix⟩
        | .took n :: script =>
            have ih := writeSingle_ok buf script (offset + min n (buf.length - offset)) (by omega)
            rw [← List.drop_drop] at ih
            exact ih.taken

theorem writeVecLoop_ok {bufs : List Bytes} : ∀ (script : List WriteAnswer) (iov : List Bytes)
    (written offset : ℕ), Rest bufs written offset iov →
    (writeVecLoop script iov written offset).Ok bufs iov.flatten
  | script, iov, written, offset, h => by
      have hlen := h.length
      have hpos : 0 < iov.length := by
        obtain ⟨b, tail, -, -, rfl⟩ := h
        simp
      unfold writeVecLoop
      split
      · rename_i h0
        refine ⟨by simp, fun _ => by dsimp only; omega, fun _ _ => ?_, fun _ h => by dsimp only at h; omega,
          List.nil_prefix⟩
        exact (List.length_eq_zero_iff.mp h0).symm
      · rename_i h0
        have hne : iov.flatten ≠ [] := fun hnil => h0 (by rw [hnil]; rfl)
        match script with
        | [] =>
            exact ⟨by simp, fun _ => by dsimp only; omega, fun _ h => by dsimp only at h; omega,
              fun _ _ => ⟨iov, h, hne, rfl⟩, List.nil_prefix⟩
        | .again :: script =>
            exact ⟨by simp, fun _ => by dsimp only; omega, fun _ h => by dsimp only at h; omega,
              fun _ _ => ⟨iov, h, hne, rfl⟩, List.nil_prefix⟩
        | .ioError :: script => exact ⟨by simp, nofun, nofun, nofun, List.nil_prefix⟩
        | .sysError :: script => exact ⟨by simp, nofun, nofun, nofun, List.nil_prefix⟩
        | .took n :: script =>
            dsimp only
            split
            · exact ⟨by simp, fun _ => by dsimp only; omega, fun _ _ => rfl,
                fun _ h => by dsimp only at h; omega, List.prefix_rfl⟩
            split
            · exact ⟨by simp, fun _ => by dsimp only; omega, fun _ h => by dsimp only at h; omega,
                fun _ _ => ⟨iov, h, hne, rfl⟩, List.nil_prefix⟩
            · rename_i hlt hn
              obtain ⟨hrest, hflat⟩ := advance_rest iov written offset n h (by omega)
              have ih := writeVecLoop_ok script _ _ _ hrest
              rw [hflat] at ih
              exact ih.taken

theorem writeVec_ok (script : List WriteAnswer) {b : Bytes} {bufs : List Bytes} {offset : ℕ}
    (ho : offset = 0 ∨ offset < b.length) :
    (writeVec script (b :: bufs) offset).Ok (b :: bufs) ((b :: bufs).flatten.drop offset) := by
  cases bufs with
  | nil =>
      simpa [writeVec] using writeSingle_ok b script offset (by omega)
  | cons c bufs =>
      have hrest : Rest (b :: c :: bufs) 0 offset (b.drop offset :: c :: bufs) := ⟨b, c :: bufs, rfl, ho, rfl⟩
      have h := writeVecLoop_ok script _ 0 offset hrest
      rw [hrest.flatten, List.drop_zero] at h
      have hle : offset ≤ b.length := by omega
      simp only [writeVec, if_pos hle]
      exact h

theorem writeSingle_quiet (buf : Bytes) : ∀ (script : List WriteAnswer) (offset : ℕ), Quiet script →
    (writeSingle buf script offset).thrown = none ∧ Quiet (writeSingle buf script offset).script
  | script, offset, h => by
      unfold writeSingle
      split
      · exact ⟨rfl, h⟩
      match script, h with
      | [], h => exact ⟨rfl, h⟩
      | .again :: script, h => exact ⟨rfl, (List.forall_mem_cons.mp h).2⟩
      | .ioError :: script, h => exact absurd rfl (List.forall_mem_cons.mp h).1.1
      | .sysError :: script, h => exact absurd rfl (List.forall_mem_cons.mp h).1.2
      | .took n :: script, h => exact writeSingle_quiet buf script _ (List.forall_mem_cons.mp h).2

theorem writeVecLoop_quiet : ∀ (script : List WriteAnswer) (iov : List Bytes) (written offset : ℕ),
    Quiet script → (writeVecLoop script iov written offset).thrown = none ∧
      Quiet (writeVecLoop script iov written offset).script
  | script, iov, written, offset, h => by
      unfold writeVecLoop
      split
      · exact ⟨rfl, h⟩
      match script, h with
      | [], h => exact ⟨rfl, h⟩
      | .again :: script, h => exact ⟨rfl, (List.forall_mem_cons.mp h).2⟩
      | .ioError :: script, h => exact absurd rfl (List.forall_mem_cons.mp h).1.1
      | .sysError :: script, h => exact absurd rfl (List.forall_mem_cons.mp h).1.2
      | .took n :: script, h =>
          have hs : Quiet script := (List.forall_mem_cons.mp h).2
          dsimp only
          split
          · exact ⟨rfl, hs⟩
          split
          · exact ⟨rfl, hs⟩
          · exact writeVecLoop_quiet script _ _ _ hs

/-- Without an error of the socket the only way out is that of an offset past the first buffer. -/
theorem writeVec_quiet {script : List WriteAnswer} (h : Quiet script) (iov : List Bytes) (offset : ℕ) :
    (∀ e, (writeVec script iov offset).thrown = some e → e = .overrun) ∧
      Quiet (writeVec script iov offset).script := by
  unfold writeVec
  split
  · rw [(writeSingle_quiet _ script offset h).1]
    exact ⟨nofun, (writeSingle_quiet _ script offset h).2⟩
  · exact ⟨nofun, h⟩
  · split
    · rw [(writeVecLoop_quiet script _ 0 offset h).1]
      exact ⟨nofun, (writeVecLoop_quiet script _ 0 offset h).2⟩
    · exact ⟨fun e he => (Option.some.inj he).symm, h⟩

/-- The answers are used one after the other. -/
theorem writeSingle_script (buf : Bytes) : ∀ (script : List WriteAnswer) (offset : ℕ),
    (writeSingle buf script offset).script <:+ script
  | script, offset => by
      unfold writeSingle
      split
      · exact List.suffix_rfl
      match script with
      | [] => exact List.suffix_rfl
      | .again :: script => exact List.suffix_cons _ _
      | .ioError :: script => exact List.suffix_cons _ _
      | .sysError :: script => exact List.suffix_cons _ _
      | .took n :: script => exact (writeSingle_script buf script _).trans (List.suffix_cons _ _)

theorem writeVecLoop_script : ∀ (script : List WriteAnswer) (iov : List Bytes) (written offset : ℕ),
    (writeVecLoop script iov written offset).script <:+ script
  | script, iov, written, offset => by
      unfold writeVecLoop
      split
      · exact List.suffix_rfl
      match script with
      | [] => exact List.suffix_rfl
      | .again :: script => exact List.suffix_cons _ _
      | .ioError :: script => exact List.suffix_cons _ _
      | .sysError :: script => exact List.suffix_cons _ _
      | .took n :: script =>
          dsimp only
          split
          · exact List.suffix_cons _ _
          split
          · exact List.suffix_cons _ _
          · exact (writeVecLoop_script script _ _ _).trans (List.suffix_cons _ _)

theorem writeVec_script (script : List WriteAnswer) (iov : List Bytes) (offset : ℕ) :
    (writeVec script iov offset).script <:+ script := by
  unfold writeVec
  split
  · exact writeSingle_script _ script offset
  · exact List.suffix_rfl
  · split
    · exact writeVecLoop_script script _ 0 offset
    · exact List.suffix_rfl

/-- A call that stops has found no room. -/
theorem writeSingle_steady (buf : Bytes) : ∀ (script : List WriteAnswer) (offset : ℕ), Steady script →
    (writeSingle buf script offset).thrown = none → (writeSingle buf script offset).count < 1 →
    ∀ a ∈ (writeSingle buf script offset).script, a.full = true
  | script, offset, h, ht, hc => by
      unfold writeSingle at ht hc ⊢
      split at hc
      · exact absurd hc (lt_irrefl _)
      rename_i hlt
      rw [if_neg hlt] at ht ⊢
      match script, h, ht, hc with
      | [], _, _, _ => exact nofun
      | .again :: script, h, _, _ => exact h.full rfl
      | .took n :: script, h, ht, hc => exact writeSingle_steady buf script _ h.tail ht hc

theorem advance_length : ∀ (iov : List Bytes) (n offset : ℕ),
    (advance iov n offset).2.1 + (advance iov n offset).1.length = iov.length
  | [], _, _ => rfl
  | b :: iov, n, offset => by
      unfold advance
      split
      · have := advance_length iov (n - b.length) 0
        simp only [List.length_cons]
        omega
      · simp

theorem writeVecLoop_steady : ∀ (script : List WriteAnswer) (iov : List Bytes) (written offset : ℕ),
    Steady script → (writeVecLoop script iov written offset).thrown = none →
    (writeVecLoop script iov written offset).count < written + iov.length →
    ∀ a ∈ (writeVecLoop script iov written offset).script, a.full = true
  | script, iov, written, offset, h, ht, hc => by
      unfold writeVecLoop at ht hc ⊢
      split at hc
      · exact absurd hc (lt_irrefl _)
      rename_i h0
      rw [if_neg h0] at ht ⊢
      match script, h, ht, hc with
      | [], _, _, _ => exact nofun
      | .again :: script, h, _, _ => exact h.full rfl
      | .took n :: script, h, ht, hc =>
          dsimp only at ht hc ⊢
          by_cases hall : iov.flatten.length ≤ n
          · rw [if_pos hall] at hc
            exact absurd hc (lt_irrefl _)
          rw [if_neg hall] at ht hc ⊢
          by_cases hn : n = 0
          · rw [if_pos hn]
            exact h.full (by rw [hn]; rfl)
          rw [if_neg hn] at ht hc ⊢
          have hlen := advance_length iov n offset
          refine writeVecLoop_steady script _ _ _ h.tail ht ?_
          dsimp only at hc
          omega

theorem writeVec_steady {script : List WriteAnswer} (h : Steady script) (offset : ℕ) :
    ∀ iov : List Bytes, (writeVec script iov offset).thrown = none →
    (writeVec script iov offset).count < iov.length →
    ∀ a ∈ (writeVec script iov offset).script, a.full = true
  | [], _, hc => absurd hc (lt_irrefl _)
  | [buf], ht, hc => writeSingle_steady buf script offset h ht hc
  | buf :: c :: iov, ht, hc => by
      unfold writeVec at ht hc ⊢
      dsimp only at ht hc ⊢
      by_cases hle : offset ≤ buf.length
      · rw [if_pos hle] at ht hc ⊢
        exact writeVecLoop_steady script _ 0 offset h ht (by simpa using hc)
      · rw [if_neg hle] at ht
        cases ht

/-- Without room nothing is written. -/
theorem writeSingle_full (buf : Bytes) : ∀ (script : List WriteAnswer) (offset : ℕ),
    (∀ a ∈ script, a.full = true) → (writeSingle buf script offset).taken = []
  | script, offset, h => by
      unfold writeSingle
      split
      · rfl
      match script, h with
      | [], _ => rfl
      | .again :: script, _ => rfl
      | .ioError :: script, _ => rfl
      | .sysError :: script, _ => rfl
      | .took n :: script, h =>
          have hn : n = 0 := by simpa [WriteAnswer.full] using h _ List.mem_cons_self
          have ih := writeSingle_full buf script (offset + min n (buf.length - offset))
            fun a ha => h a (List.mem_cons_of_mem _ ha)
          dsimp only
          rw [ih, hn, Nat.zero_min, List.take_zero]
          rfl

theorem writeVecLoop_full : ∀ (script : List WriteAnswer) (iov : List Bytes) (written offset : ℕ),
    (∀ a ∈ script, a.full = true) → (writeVecLoop script iov written offset).taken = []
  | script, iov, written, offset, h => by
      unfold writeVecLoop
      split
      · rfl
      rename_i h0
      match script, h with
      | [], _ => rfl
      | .again :: script, _ => rfl
      | .ioError :: script, _ => rfl
      | .sysError :: script, _ => rfl
      | .took n :: script, h =>
          have hn : n = 0 := by simpa [WriteAnswer.full] using h _ List.mem_cons_self
          dsimp only
          rw [if_neg (by omega), if_pos hn]

theorem writeVec_full {script : List WriteAnswer} (h : ∀ a ∈ script, a.full = true) (iov : List Bytes)
    (offset : ℕ) : (writeVec script iov offset).taken = [] := by
  unfold writeVec
  split
  · exact writeSingle_full _ script offset h
  · rfl
  · split
    · exact writeVecLoop_full script _ 0 offset h
    · rfl

/-! ### The whole set -/

theorem nextGroupLoop_le : ∀ (bufs : List Bytes) (bulk : ℤ) (i : ℕ),
    i ≤ nextGroupLoop bufs bulk i ∧ nextGroupLoop bufs bulk i ≤ i + bufs.length
  | [], _, i => by simp [nextGroupLoop]
  | b :: bufs, bulk, i => by
      unfold nextGroupLoop
      split
      · have := nextGroupLoop_le bufs (bulk + b.length) (i + 1)
        rw [List.length_cons]
        omega
      · rw [List.length_cons]
        omega

theorem nextGroupToWrite_le (bufs : List Bytes) (offset : ℕ) : nextGroupToWrite bufs offset ≤ bufs.length := by
  cases bufs with
  | nil => exact le_rfl
  | cons b bufs =>
      have := (nextGroupLoop_le bufs ((b.length : ℤ) - offset) 1).2
      rw [nextGroupToWrite, List.length_cons]
      omega

namespace BufferSet
variable {ρ : Type} {content : ρ → Bytes}

theorem OffsetOk.le {s : BufferSet ρ} (h : s.OffsetOk content) :
    s.firstBufOffset ≤ (s.bufArr.map content).flatten.length := by
  unfold OffsetOk at h
  split at h
  · omega
  · rename_i b arr hb
    rw [hb, List.map_cons, List.flatten_cons, List.length_append]
    omega

theorem OffsetOk.head {s : BufferSet ρ} (h : s.OffsetOk content) :
    ∀ c ∈ (s.bufArr.map content).head?, s.firstBufOffset = 0 ∨ s.firstBufOffset < c.length := by
  unfold OffsetOk at h
  split at h
  · exact fun _ _ => Or.inl h
  · rename_i b arr hb
    rw [hb]
    intro c hc
    cases hc
    exact h

/-- Only the bytes of the buffers in the set matter. -/
theorem OffsetOk.congr {content' : ρ → Bytes} {s : BufferSet ρ} (h : s.OffsetOk content)
    (hc : ∀ b ∈ s.bufArr, content' b = content b) : s.OffsetOk content' := by
  unfold OffsetOk at h ⊢
  split at h
  · exact h
  · rename_i b arr hb
    rw [hc b (by rw [hb]; exact List.mem_cons_self)]
    exact h

theorem pending_congr {content' : ρ → Bytes} {s : BufferSet ρ}
    (hc : ∀ b ∈ s.bufArr, content' b = content b) : s.pending content' = s.pending content := by
  rw [pending, pending, List.map_congr_left hc]

/-- More buffers behind those that are there. -/
theorem OffsetOk.append {s : BufferSet ρ} (h : s.OffsetOk content) (bufs : List ρ) :
    OffsetOk content { s with bufArr := s.bufArr ++ bufs } := by
  obtain ⟨arr, off⟩ := s
  cases arr with
  | nil =>
      have h0 : off = 0 := h
      cases bufs with
      | nil => exact h0
      | cons b bufs => exact Or.inl h0
  | cons b arr => exact h

theorem pending_append {s : BufferSet ρ} (h : s.OffsetOk content) (bufs : List ρ) :
    pending content { s with bufArr := s.bufArr ++ bufs } =
      s.pending content ++ (bufs.map content).flatten := by
  rw [pending, pending, List.map_append, List.flatten_append, List.drop_append_of_le_length h.le]

/-- What `writev` does with a set: all of it, a part, or it throws after an error of the
socket; nothing is lost or written twice while it does not. -/
structure Flushes (content : ρ → Bytes) (s : BufferSet ρ) (r : Flushed ρ) : Prop where
  overrun : r.ended ≠ .threw .overrun
  suffix : r.set.bufArr <:+ s.bufArr
  offset : (∀ e, r.ended ≠ .threw e) → r.set.OffsetOk content
  bytes : (∀ e, r.ended ≠ .threw e) → r.taken ++ r.set.pending content = s.pending content
  all : r.ended = .all → r.set.bufArr = []
  blocked : r.ended = .blocked → r.set.pending content ≠ []
  sent : r.taken <+: s.pending content

theorem writevLoop_flushes : ∀ (fuel : ℕ) (script : List WriteAnswer) (s : BufferSet ρ),
    s.bufArr.length ≤ fuel → s.OffsetOk content → s.Flushes content (s.writevLoop content fuel script)
  | 0, script, s, hf, ho => by
      have hnil := List.length_eq_zero_iff.mp (Nat.le_zero.mp hf)
      exact ⟨by simp [writevLoop], List.suffix_rfl, fun _ => ho, fun _ => rfl, fun _ => hnil, nofun,
        List.nil_prefix⟩
  | fuel + 1, script, ⟨[], off⟩, hf, ho =>
      ⟨by simp [writevLoop], List.suffix_rfl, fun _ => ho, fun _ => rfl, fun _ => rfl, nofun, List.nil_prefix⟩
  | fuel + 1, script, ⟨b :: arr, off⟩, hf, ho => by
      have hlen := nextGroupLoop_le (arr.map content) (((content b).length : ℤ) - off) 1
      rw [List.length_map] at hlen
      generalize hk : nextGroupToWrite (content b :: arr.map content) off = k
      have hgroup : nextGroupLoop (arr.map content) (((content b).length : ℤ) - off) 1 = k := hk
      obtain ⟨j, rfl⟩ : ∃ j, k = j + 1 := ⟨k - 1, by omega⟩
      have hj : j ≤ arr.length := by omega
      have hw := @writeVec_ok script (content b) ((arr.map content).take j) off ho
      unfold writevLoop
      simp only [List.map_cons, hk, List.take_succ_cons, List.isEmpty_cons, Bool.false_eq_true, if_false]
      generalize writeVec script (content b :: (arr.map content).take j) off = w at hw
      have hcount : (content b :: (arr.map content).take j).length = j + 1 := by
        rw [List.length_cons, List.length_take, List.length_map]
        omega
      have hoff : off ≤ (content b :: (arr.map content).take j).flatten.length := by
        rw [List.flatten_cons, List.length_append]
        have : off = 0 ∨ off < (content b).length := ho
        omega
      generalize hA : content b :: (arr.map content).take j = A at *
      generalize hB : (arr.map content).drop j = B at *
      have hmap : (b :: arr).map content = A ++ B := by
        rw [← hA, ← hB, List.map_cons, List.cons_append, List.take_append_drop]
      have htodo : BufferSet.pending content ⟨b :: arr, off⟩ = A.flatten.drop off ++ B.flatten := by
        rw [pending, hmap, List.flatten_append, List.drop_append_of_le_length hoff]
      have hsent : w.taken <+: BufferSet.pending content ⟨b :: arr, off⟩ := by
        rw [htodo]
        exact hw.sent.trans (List.prefix_append _ _)
      cases ht : w.thrown with
      | some e =>
          refine ⟨?_, List.suffix_rfl, fun h => absurd rfl (h e), fun h => absurd rfl (h e), nofun, nofun, hsent⟩
          intro h
          cases h
          exact hw.thrown ht
      | none =>
          have hle := hw.count ht
          rw [hcount] at hle
          have hdrop : ((b :: arr).drop w.count).map content = A.drop w.count ++ B := by
            rw [List.map_drop, hmap, List.drop_append_of_le_length (by omega)]
          dsimp only
          split
          · rename_i hlt
            obtain ⟨iov, hrest, hne, hflat⟩ := hw.part ht (by omega)
            obtain ⟨c, tail, hc, hco, hiov⟩ := hrest
            have hpend : ((b :: arr).drop w.count).map content = c :: tail ++ B := by rw [hdrop, hc]
            have hleft : BufferSet.pending content ⟨(b :: arr).drop w.count, w.offset⟩ =
                iov.flatten ++ B.flatten := by
              have hle : w.offset ≤ (c :: tail).flatten.length := by
                rw [List.flatten_cons, List.length_append]
                omega
              rw [pending, hpend, List.flatten_append]
              dsimp only
              rw [List.drop_append_of_le_length hle, hiov, List.flatten_cons, List.flatten_cons,
                List.drop_append_of_le_length (by omega)]
            refine ⟨nofun, List.drop_suffix _ _, fun _ => ?_, fun _ => ?_, nofun, fun _ h => ?_, hsent⟩
            · cases harr : (b :: arr).drop w.count with
              | nil => rw [harr] at hpend; cases hpend
              | cons d rest =>
                  rw [harr] at hpend
                  obtain ⟨rfl, -⟩ := List.cons.inj hpend
                  exact hco
            · rw [hleft, htodo, ← hflat, List.append_assoc]
            · rw [hleft] at h
              exact hne (List.append_eq_nil_iff.mp h).1
          · rename_i hlt
            have hall' : w.count = j + 1 := by omega
            have htaken := hw.all ht (by omega)
            have ih := writevLoop_flushes fuel w.script ⟨(b :: arr).drop w.count, 0⟩
              (by
                simp only [List.length_cons] at hf
                simp only [List.length_drop, List.length_cons]
                omega)
              (by
                unfold OffsetOk
                split
                · rfl
                · exact Or.inl rfl)
            have hrestbytes : BufferSet.pending content ⟨(b :: arr).drop w.count, 0⟩ = B.flatten := by
              rw [pending, hdrop, List.drop_zero, List.drop_of_length_le (by omega), List.nil_append]
            refine ⟨ih.overrun, ih.suffix.trans (List.drop_suffix _ _), ih.offset, fun h => ?_, ih.all,
              ih.blocked, ?_⟩
            · rw [htodo, ← htaken, ← hrestbytes, ← ih.bytes h, List.append_assoc]
            · rw [htodo, ← htaken, ← hrestbytes]
              exact (List.prefix_append_right_inj _).mpr ih.sent

theorem writevLoop_quiet : ∀ (fuel : ℕ) (script : List WriteAnswer) (s : BufferSet ρ), Quiet script →
    (∀ e, (s.writevLoop content fuel script).ended = .threw e → e = .overrun) ∧
      Quiet (s.writevLoop content fuel script).script
  | 0, _, _, h => ⟨nofun, h⟩
  | fuel + 1, script, s, h => by
      have hw := writeVec_quiet h ((s.bufArr.map content).take
        (nextGroupToWrite (s.bufArr.map content) s.firstBufOffset)) s.firstBufOffset
      unfold writevLoop
      split
      · exact ⟨nofun, h⟩
      dsimp only
      split
      · rename_i e he
        refine ⟨fun e' he' => ?_, hw.2⟩
        cases he'
        exact hw.1 e he
      · split
        · exact ⟨nofun, hw.2⟩
        · exact writevLoop_quiet fuel _ _ hw.2

/-- The socket has no room when `writev` comes back before the end. -/
theorem writevLoop_steady : ∀ (fuel : ℕ) (script : List WriteAnswer) (s : BufferSet ρ), Steady script →
    (s.writevLoop content fuel script).ended = .blocked →
    ∀ a ∈ (s.writevLoop content fuel script).script, a.full = true
  | 0, _, _, _, h => nomatch h
  | fuel + 1, script, s, hs, h => by
      have hgroup := nextGroupToWrite_le (s.bufArr.map content) s.firstBufOffset
      unfold writevLoop at h ⊢
      split at h
      · cases h
      rename_i hne
      rw [if_neg hne]
      dsimp only at h ⊢
      generalize nextGroupToWrite (s.bufArr.map content) s.firstBufOffset = n at *
      have hw := writeVec_steady hs s.firstBufOffset ((s.bufArr.map content).take n)
      have hscript := writeVec_script script ((s.bufArr.map content).take n) s.firstBufOffset
      generalize writeVec script ((s.bufArr.map content).take n) s.firstBufOffset = w at *
      rw [List.length_take_of_le hgroup] at hw
      cases ht : w.thrown with
      | some e =>
          rw [ht] at h
          cases h
      | none =>
          rw [ht] at h
          dsimp only at h ⊢
          split at h
          · rename_i hlt
            rw [if_pos hlt]
            exact hw ht hlt
          · rename_i hlt
            rw [if_neg hlt]
            exact writevLoop_steady fuel w.script _ (hs.suffix hscript) h

/-- Without room nothing is written. -/
theorem writevLoop_full : ∀ (fuel : ℕ) (script : List WriteAnswer) (s : BufferSet ρ),
    (∀ a ∈ script, a.full = true) → (s.writevLoop content fuel script).taken = []
  | 0, _, _, _ => rfl
  | fuel + 1, script, s, hs => by
      unfold writevLoop
      split
      · rfl
      dsimp only
      generalize nextGroupToWrite (s.bufArr.map content) s.firstBufOffset = n
      have hw := writeVec_full hs ((s.bufArr.map content).take n) s.firstBufOffset
      have hscript := writeVec_script script ((s.bufArr.map content).take n) s.firstBufOffset
      generalize writeVec script ((s.bufArr.map content).take n) s.firstBufOffset = w at *
      split
      · exact hw
      · split
        · exact hw
        · dsimp only
          rw [hw, writevLoop_full fuel w.script _ fun a ha => hs a (hscript.subset ha)]
          rfl

/-- `writev` on a set whose offset lies within its first buffer. -/
theorem writev_flushes (script : List WriteAnswer) {s : BufferSet ρ} (ho : s.OffsetOk content) :
    s.Flushes content (s.writev content script) :=
  writevLoop_flushes s.bufArr.length script s le_rfl ho

theorem writev_quiet {script : List WriteAnswer} (h : Quiet script) {s : BufferSet ρ}
    (ho : s.OffsetOk content) : (∀ e, (s.writev content script).ended ≠ .threw e) ∧
      Quiet (s.writev content script).script := by
  obtain ⟨hthrow, hquiet⟩ := writevLoop_quiet s.bufArr.length script s h
  refine ⟨fun e he => ?_, hquiet⟩
  have hover : e = .overrun := hthrow e he
  exact (writev_flushes script ho).overrun (hover ▸ he)

/-- A socket without room does not take what is left. -/
theorem writev_full {script : List WriteAnswer} (hs : ∀ a ∈ script, a.full = true) {s : BufferSet ρ}
    (ho : s.OffsetOk content) (hp : s.pending content ≠ []) : (s.writev content script).ended ≠ .all := by
  intro hall
  have hf := writev_flushes script ho
  have hbytes := hf.bytes (fun e he => by rw [hall] at he; cases he)
  have htaken : (s.writev content script).taken = [] := writevLoop_full _ script s hs
  rw [htaken, pending, hf.all hall, List.map_nil, List.flatten_nil, List.drop_nil] at hbytes
  exact hp hbytes.symm

/-! ### Runs -/

/-- The calls a set gets from outside. -/
inductive Call (ρ : Type) where
  | append (buf : ρ)
  | writev (script : List WriteAnswer)

/-- A set, and what the socket has taken so far. -/
def Call.run (content : ρ → Bytes) (x : BufferSet ρ × Bytes) : Call ρ → BufferSet ρ × Bytes
  | append buf => (x.1.append buf, x.2)
  | writev script => ((x.1.writev content script).set, x.2 ++ (x.1.writev content script).taken)

/-- The bytes a call appends. -/
def Call.appended (content : ρ → Bytes) : Call ρ → Bytes
  | append buf => content buf
  | writev _ => []

/-- The socket has no error to report in the call. -/
def Call.Quiet : Call ρ → Prop
  | append _ => True
  | writev script => Cerberus.Quiet script

/-- One call loses nothing. -/
theorem Call.run_bytes {x : BufferSet ρ × Bytes} (h : x.1.OffsetOk content) {c : Call ρ} (hc : c.Quiet) :
    (c.run content x).1.OffsetOk content ∧
      (c.run content x).2 ++ (c.run content x).1.pending content =
        x.2 ++ x.1.pending content ++ c.appended content := by
  cases c with
  | append buf =>
      refine ⟨h.append [buf], ?_⟩
      have hp := pending_append h [buf]
      rw [List.map_singleton, List.flatten_singleton] at hp
      show x.2 ++ pending content { x.1 with bufArr := x.1.bufArr ++ [buf] } = _
      rw [hp, ← List.append_assoc]
      rfl
  | writev script =>
      have hf := writev_flushes script h
      have hthrow := (writev_quiet hc h).1
      refine ⟨hf.offset hthrow, ?_⟩
      show x.2 ++ (x.1.writev content script).taken ++ (x.1.writev content script).set.pending content =
        x.2 ++ x.1.pending content ++ []
      rw [List.append_assoc, hf.bytes hthrow, List.append_nil]

theorem Call.runs_bytes : ∀ {calls : List (Call ρ)} {x : BufferSet ρ × Bytes}, x.1.OffsetOk content →
    (∀ c ∈ calls, c.Quiet) →
    (calls.foldl (Call.run content) x).1.OffsetOk content ∧
      (calls.foldl (Call.run content) x).2 ++ (calls.foldl (Call.run content) x).1.pending content =
        x.2 ++ x.1.pending content ++ (calls.map (Call.appended content)).flatten
  | [], x, h, _ => ⟨h, (List.append_nil _).symm⟩
  | c :: calls, x, h, hc => by
      obtain ⟨hoff, hbytes⟩ := Call.run_bytes h (hc c List.mem_cons_self)
      obtain ⟨hoffs, hall⟩ := Call.runs_bytes hoff fun d hd => hc d (List.mem_cons_of_mem _ hd)
      refine ⟨hoffs, ?_⟩
      rw [List.foldl_cons, hall, hbytes, List.map_cons, List.flatten_cons, List.append_assoc]

/-- A set writes the stream of what is appended to it: after any calls on a new set the bytes the
socket has taken and those still to be written make up the appended buffers, the offset lies
within the first buffer, and the next `writev` returns true just if it leaves nothing. -/
theorem writes_stream (content : ρ → Bytes) (calls : List (Call ρ)) (hc : ∀ c ∈ calls, c.Quiet) :
    let x := calls.foldl (Call.run content) (new, [])
    x.2 ++ x.1.pending content = (calls.map (Call.appended content)).flatten ∧
    (match x.1.bufArr with
      | [] => x.1.firstBufOffset = 0
      | b :: bufs => x.1.firstBufOffset ≤ (content b).length ∧
          x.1.pending content = (content b).drop x.1.firstBufOffset ++ (bufs.map content).flatten) ∧
    ∀ script, Cerberus.Quiet script →
      let r := x.1.writev content script
      (r.ended = .all ∨ r.ended = .blocked) ∧ (r.ended = .all ↔ r.set.bufArr = []) ∧
        (r.ended = .all ↔ r.set.pending content = []) := by
  intro x
  obtain ⟨hoff, hbytes⟩ : x.1.OffsetOk content ∧ x.2 ++ x.1.pending content = _ :=
    Call.runs_bytes (x := (new, [])) rfl hc
  refine ⟨hbytes, ?_, fun script hs => ?_⟩
  · unfold OffsetOk at hoff
    unfold pending
    split
    · rename_i hb
      rw [hb] at hoff
      exact hoff
    · rename_i b bufs hb
      rw [hb] at hoff ⊢
      have hle : x.1.firstBufOffset ≤ (content b).length := hoff.elim (fun h => h ▸ Nat.zero_le _) le_of_lt
      exact ⟨hle, by rw [List.map_cons, List.flatten_cons, List.drop_append_of_le_length hle]⟩
  · intro r
    have hf : x.1.Flushes content r := writev_flushes script hoff
    have hthrow : ∀ e, r.ended ≠ .threw e := (writev_quiet hs hoff).1
    have hnone : r.set.bufArr = [] → r.set.pending content = [] := by
      intro hnil
      rw [pending, hnil]
      exact List.drop_nil
    cases hend : r.ended with
    | all =>
        have hnil := hf.all hend
        exact ⟨Or.inl rfl, iff_of_true rfl hnil, iff_of_true rfl (hnone hnil)⟩
    | blocked =>
        have hne := hf.blocked hend
        exact ⟨Or.inr rfl, iff_of_false nofun fun hnil => hne (hnone hnil), iff_of_false nofun hne⟩
    | threw e => exact absurd hend (hthrow e)

/-- Three buffers, one of them empty, and a socket that takes them in two calls. -/
theorem writes_stream_partial :
    let calls := [.append (ascii "ab"), .append [], .append (ascii "cd"), .writev [.took 1, .took 2, .again],
      Call.writev [.took 5]]
    (∀ c ∈ calls, c.Quiet) ∧ (calls.foldl (Call.run id) (new, [])).2 = ascii "abcd" ∧
      (calls.foldl (Call.run id) (new, [])).2 ++ (calls.foldl (Call.run id) (new, [])).1.pending id =
        ascii "abcd" := by
  have hq : ∀ c ∈ [.append (ascii "ab"), .append [], .append (ascii "cd"), .writev [.took 1, .took 2, .again],
      Call.writev [.took 5]], c.Quiet := by
    simp [Call.Quiet, Cerberus.Quiet]
  exact ⟨hq, by decide +kernel, (writes_stream id _ hq).1⟩

end BufferSet

end Cerberus
