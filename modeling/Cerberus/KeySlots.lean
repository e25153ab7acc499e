import Cerberus.SlotCalc
import Cerberus.Crc
import Mathlib.Data.List.TakeWhile

/-! # The slot of a key

What `KeySlotCalc` is for: the CRC16 of the part of a key between its first braces, or of the whole
key (`hashedPart`).  The calculator sees one byte at a time and keeps two checksums of 32 bits; the
upper halves are never cleared, and never come down to the part that is used. -/

namespace Cerberus

/-- CRC16 as XMODEM has it: the polynomial `0x1021`, beginning with 0. -/
def crc16 (bs : Bytes) : BitVec 16 := bs.foldl (fun c b => Crc.byteStep 0x1021 c b.toBitVec) 0

/-- The bytes between the first `{` and the first `}` behind it, if there are any, or the key. -/
def hashedPart (key : Bytes) : Bytes :=
  let rest := (key.dropWhile (· ≠ chr '{')).tail
  let part := rest.takeWhile (· ≠ chr '}')
  if chr '}' ∈ rest ∧ part ≠ [] then part else key

/-- The key has braces with bytes between them. -/
def HashTagged (key : Bytes) : Prop :=
  let rest := (key.dropWhile (· ≠ chr '{')).tail
  chr '}' ∈ rest ∧ rest.takeWhile (· ≠ chr '}') ≠ []

instance (key : Bytes) : Decidable (HashTagged key) := inferInstanceAs (Decidable (_ ∧ _))

/-! ### The checksum -/

theorem crc16Tab_spec : ∀ i : Fin 256,
    (crc16Tab.getD i 0).setWidth 16 = Crc.byteStep 0x1021 0#16 (BitVec.ofFin i) := by
  decide +kernel

/-- The table is looked up at a byte. -/
theorem crcNextByte_eq (s : BitVec 32) (b : Byte) :
    crcNextByte s b = (s <<< 8) ^^^ crc16Tab.getD ((s >>> 8).setWidth 8 ^^^ b.toBitVec).toNat 0 := by
  have hbits : (s >>> 8).setWidth 8 ^^^ b.toBitVec =
      ((s >>> 8) ^^^ BitVec.ofNat 32 b.toNat).setWidth 8 := by
    apply BitVec.eq_of_getLsbD_eq
    intro i hi
    simp only [BitVec.getLsbD_xor, BitVec.getLsbD_ushiftRight, BitVec.getLsbD_setWidth, BitVec.getLsbD_ofNat, hi,
      show i < 32 by omega, decide_true, Bool.true_and]
    rfl
  rw [crcNextByte, hbits, BitVec.toNat_setWidth, BitVec.toNat_and]
  exact congrArg (s <<< 8 ^^^ crc16Tab.getD · 0) (Nat.and_two_pow_sub_one_eq_mod _ 8)

/-- The lower half of the accumulator is a checksum of 16 bits. -/
theorem crcNextByte_setWidth (s : BitVec 32) (b : Byte) :
    (crcNextByte s b).setWidth 16 = Crc.byteStep 0x1021 (s.setWidth 16) b.toBitVec := by
  have hindex : (s >>> 8).setWidth 8 = ((s.setWidth 16) >>> 8).setWidth 8 := by
    apply BitVec.eq_of_getLsbD_eq
    intro i hi
    simp only [BitVec.getLsbD_setWidth, BitVec.getLsbD_ushiftRight, show 8 + i < 16 by omega, decide_true,
      Bool.true_and]
  have hshift : (s <<< 8).setWidth 16 = s.setWidth 16 <<< 8 := by
    apply BitVec.eq_of_getLsbD_eq
    intro i hi
    simp only [BitVec.getLsbD_setWidth, BitVec.getLsbD_shiftLeft, hi, show i < 32 by omega, show i - 8 < 16 by omega,
      decide_true, Bool.true_and]
  rw [crcNextByte_eq, hindex, BitVec.setWidth_xor, hshift, Crc.byteStep_table _ (by decide)]
  exact congrArg (s.setWidth 16 <<< 8 ^^^ ·) (crc16Tab_spec (((s.setWidth 16) >>> 8).setWidth 8 ^^^ b.toBitVec).toFin)

theorem crc16Tab_digits : ∀ i : Fin 256,
    crc16Tab.getD (BitVec.ofFin i ^^^ (chr '0').toBitVec).toNat 0 &&& 0x3FFF ≠
      crc16Tab.getD (BitVec.ofFin i ^^^ (chr '1').toBitVec).toNat 0 &&& 0x3FFF := by
  decide +kernel

/-- The last digit shows in the bits that are used. -/
theorem crcNextByte_digits (s : BitVec 32) :
    crcNextByte s (chr '0') &&& 0x3FFF ≠ crcNextByte s (chr '1') &&& 0x3FFF := by
  intro h
  have hcancel : ∀ x a b m : BitVec 32, (x ^^^ a) &&& m = (x ^^^ b) &&& m → a &&& m = b &&& m := by
    intro x a b m h
    apply BitVec.eq_of_getLsbD_eq
    intro i _
    have hi := congrArg (·.getLsbD i) h
    simp only [BitVec.getLsbD_and, BitVec.getLsbD_xor] at hi ⊢
    cases hm : m.getLsbD i with
    | false => simp only [Bool.and_false]
    | true => simpa [hm] using hi
  rw [crcNextByte_eq, crcNextByte_eq] at h
  exact crc16Tab_digits ((s >>> 8).setWidth 8).toFin (hcancel _ _ _ _ h)

/-- Some bytes, from any value of the accumulator. -/
def crcBytes (s : BitVec 32) (bs : Bytes) : BitVec 32 := bs.foldl crcNextByte s

theorem crcBytes_append (s : BitVec 32) (l l' : Bytes) : crcBytes s (l ++ l') = crcBytes (crcBytes s l) l' :=
  List.foldl_append

theorem crcBytes_setWidth (bs : Bytes) : (crcBytes 0 bs).setWidth 16 = crc16 bs := by
  have h : ∀ (bs : Bytes) (s : BitVec 32), (crcBytes s bs).setWidth 16 =
      bs.foldl (fun c b => Crc.byteStep 0x1021 c b.toBitVec) (s.setWidth 16) := by
    intro bs
    induction bs with
    | nil => exact fun _ => rfl
    | cons b bs ih =>
        intro s
        rw [List.foldl_cons, ← crcNextByte_setWidth]
        exact ih _
  exact h bs 0

theorem masked_toNat (s : BitVec 32) : (s &&& 0x3FFF).toNat = (s.setWidth 16).toNat % clusterSlotCount := by
  rw [BitVec.toNat_and, BitVec.toNat_setWidth]
  show s.toNat &&& (2 ^ 14 - 1) = s.toNat % 2 ^ 16 % 2 ^ 14
  rw [Nat.and_two_pow_sub_one_eq_mod, Nat.mod_mod_of_dvd _ (by decide : 2 ^ 14 ∣ 2 ^ 16)]

/-! ### The bytes of a key -/

/-- A list up to the first element that is `b`, and behind it. -/
theorem split_at_first {b : Byte} {l : Bytes} (h : b ∈ l) :
    l = l.takeWhile (· ≠ b) ++ b :: (l.dropWhile (· ≠ b)).tail := by
  have hne : l.dropWhile (· ≠ b) ≠ [] := by
    intro hnil
    simpa using List.dropWhile_eq_nil_iff.mp hnil b h
  have hhead : (l.dropWhile (· ≠ b)).head hne = b := by
    simpa using List.head_dropWhile_not (fun a => decide (a ≠ b)) hne
  conv_lhs => rw [← List.takeWhile_append_dropWhile (p := fun a => decide (a ≠ b)) (l := l)]
  conv_lhs => rw [← List.cons_head_tail hne, hhead]

theorem dropWhile_not_mem {b : Byte} {l : Bytes} (h : b ∉ l) : l.dropWhile (· ≠ b) = [] := by
  rw [List.dropWhile_eq_nil_iff]
  intro c hc
  have hne : c ≠ b := fun heq => h (heq ▸ hc)
  simpa using hne

theorem not_mem_takeWhile (b : Byte) (l : Bytes) : b ∉ l.takeWhile (· ≠ b) :=
  fun h => by simpa using List.mem_takeWhile_imp h

namespace KeySlotCalc

theorem feed_append (sc : KeySlotCalc) (l l' : Bytes) : sc.feed (l ++ l') = (sc.feed l).feed l' :=
  List.foldl_append

/-- Before the first brace. -/
theorem feed_directByte : ∀ (l : Bytes) (s : BitVec 32), chr '{' ∉ l →
    feed ⟨s, 0, .directByte, false, false⟩ l = ⟨crcBytes s l, 0, .directByte, false, false⟩
  | [], _, _ => rfl
  | b :: l, s, h => by
      have hb : b ≠ chr '{' := fun heq => h (heq ▸ List.mem_cons_self)
      have hstep : nextByte ⟨s, 0, .directByte, false, false⟩ b =
          ⟨crcNextByte s b, 0, .directByte, false, false⟩ := by
        simp [nextByte, directByte, hb]
      rw [feed, List.foldl_cons, hstep]
      exact feed_directByte l _ fun hmem => h (List.mem_cons_of_mem _ hmem)

/-- Behind the opening brace. -/
theorem feed_betweenBraces : ∀ (l : Bytes) (s t : BitVec 32) (last : Bool), chr '}' ∉ l →
    feed ⟨s, t, .betweenBraces, false, last⟩ l =
      ⟨crcBytes s l, crcBytes t l, .betweenBraces, false, last && l.isEmpty⟩
  | [], _, _, last, _ => by
      rw [List.isEmpty_nil, Bool.and_true]
      rfl
  | b :: l, s, t, last, h => by
      have hb : b ≠ chr '}' := fun heq => h (heq ▸ List.mem_cons_self)
      have hstep : nextByte ⟨s, t, .betweenBraces, false, last⟩ b =
          ⟨crcNextByte s b, crcNextByte t b, .betweenBraces, false, false⟩ := by
        simp [nextByte, betweenBraces, hb]
      rw [feed, List.foldl_cons, hstep, List.isEmpty_cons, Bool.and_false]
      have ih := feed_betweenBraces l (crcNextByte s b) (crcNextByte t b) false
        fun hmem => h (List.mem_cons_of_mem _ hmem)
      rw [Bool.false_and] at ih
      exact ih

theorem feed_wholeKey : ∀ (l : Bytes) (s t : BitVec 32) (last : Bool),
    feed ⟨s, t, .wholeKey, false, last⟩ l = ⟨crcBytes s l, t, .wholeKey, false, last⟩
  | [], _, _, _ => rfl
  | b :: l, s, t, last => feed_wholeKey l (crcNextByte s b) t last

theorem feed_ignore : ∀ (l : Bytes) (s t : BitVec 32) (m last : Bool),
    feed ⟨s, t, .ignore, m, last⟩ l = ⟨s, t, .ignore, m, last⟩
  | [], _, _, _, _ => rfl
  | _ :: l, s, t, m, last => feed_ignore l s t m last

theorem getSlot_unmatched (s t : BitVec 32) (f : NextByte) (last : Bool) :
    getSlot ⟨s, t, f, false, last⟩ = (s.setWidth 16).toNat % clusterSlotCount := masked_toNat s

theorem getSlot_matched (s t : BitVec 32) (f : NextByte) (last : Bool) :
    getSlot ⟨s, t, f, true, last⟩ = (t.setWidth 16).toNat % clusterSlotCount := masked_toNat t

/-- A calculator that has seen a tag keeps its checksum. -/
theorem feed_tagged {key : Bytes} (h : HashTagged key) :
    ∃ s, reset.feed key = ⟨s, crcBytes 0 (hashedPart key), .ignore, true, false⟩ := by
  have hpart : hashedPart key = (key.dropWhile (· ≠ chr '{')).tail.takeWhile (· ≠ chr '}') := if_pos h
  obtain ⟨hclose, hne⟩ := h
  have hopen : chr '{' ∈ key := by
    by_contra hnot
    rw [dropWhile_not_mem hnot] at hclose
    cases hclose
  have hkey := split_at_first hopen
  have hrest := split_at_first hclose
  have hbetween := not_mem_takeWhile (chr '}') (key.dropWhile (· ≠ chr '{')).tail
  rw [← hpart] at hne hrest hbetween
  generalize hashedPart key = part at hne hrest hbetween ⊢
  rw [hrest] at hkey
  have hpre := not_mem_takeWhile (chr '{') key
  generalize key.takeWhile (· ≠ chr '{') = pre at hkey hpre
  generalize ((key.dropWhile (· ≠ chr '{')).tail.dropWhile (· ≠ chr '}')).tail = post at hkey
  cases part with
  | nil => exact absurd rfl hne
  | cons b part =>
      have hfeed : reset.feed key = feed (feed ⟨crcBytes (crcBytes 0 pre) [chr '{'], 0, .betweenBraces, false, true⟩
          (b :: part)) (chr '}' :: post) := by
        rw [← feed_append, hkey, feed_append, reset, feed_directByte pre 0 hpre]
        rfl
      rw [hfeed, feed_betweenBraces _ _ _ _ hbetween]
      exact ⟨_, feed_ignore post _ _ _ _⟩

/-- Without a tag the whole key counts, and so does what may follow it. -/
theorem feed_untagged {key : Bytes} (h : ¬HashTagged key) :
    ∃ t f last, f ≠ .ignore ∧ reset.feed key = ⟨crcBytes 0 key, t, f, false, last⟩ := by
  by_cases hopen : chr '{' ∈ key
  · have hkey := split_at_first hopen
    -- the calculator behind the opening brace
    have hfeed : reset.feed key = feed ⟨crcBytes (crcBytes 0 (key.takeWhile (· ≠ chr '{'))) [chr '{'], 0,
        .betweenBraces, false, true⟩ (key.dropWhile (· ≠ chr '{')).tail := by
      conv_lhs => rw [hkey, feed_append, reset, feed_directByte _ 0 (not_mem_takeWhile _ _)]
      rfl
    have hwhole : crcBytes 0 key =
        crcBytes (crcBytes (crcBytes 0 (key.takeWhile (· ≠ chr '{'))) [chr '{'])
          (key.dropWhile (· ≠ chr '{')).tail := by
      conv_lhs => rw [hkey, crcBytes_append]
      rfl
    rw [hfeed, hwhole]
    unfold HashTagged at h
    generalize (key.dropWhile (· ≠ chr '{')).tail = rest at h
    by_cases hclose : chr '}' ∈ rest
    · -- nothing between the braces
      have hnil : rest.takeWhile (· ≠ chr '}') = [] := by
        by_contra hne
        exact h ⟨hclose, hne⟩
      have hrest := split_at_first hclose
      rw [hnil, List.nil_append] at hrest
      rw [hrest]
      exact ⟨_, _, _, NextByte.noConfusion, feed_wholeKey _ _ _ _⟩
    · exact ⟨_, _, _, NextByte.noConfusion, feed_betweenBraces _ _ _ _ hclose⟩
  · exact ⟨_, _, _, NextByte.noConfusion, feed_directByte key 0 hopen⟩

/-- A calculator that is new or has been reset and is fed with a key gives its slot. -/
theorem getSlot_feed (key : Bytes) :
    (reset.feed key).getSlot = (crc16 (hashedPart key)).toNat % clusterSlotCount := by
  by_cases h : HashTagged key
  · obtain ⟨s, hfeed⟩ := feed_tagged h
    rw [hfeed, getSlot_matched, crcBytes_setWidth]
  · obtain ⟨t, f, last, -, hfeed⟩ := feed_untagged h
    rw [hfeed, getSlot_unmatched, crcBytes_setWidth, show hashedPart key = key from if_neg h]

/-- What follows a tag does not count. -/
theorem getSlot_feed_tagged {key : Bytes} (h : HashTagged key) (more : Bytes) :
    (reset.feed (key ++ more)).getSlot = (reset.feed key).getSlot := by
  obtain ⟨s, hfeed⟩ := feed_tagged h
  rw [feed_append, hfeed, feed_ignore]

/-- Without a tag, bytes behind the key change the slot. -/
theorem getSlot_feed_untagged {key : Bytes} (h : ¬HashTagged key) :
    (reset.feed (key ++ [chr '0'])).getSlot ≠ (reset.feed (key ++ [chr '1'])).getSlot := by
  obtain ⟨t, f, last, hf, hfeed⟩ := feed_untagged h
  have hdigit : ∀ b : Byte, b ≠ chr '{' → b ≠ chr '}' →
      (reset.feed (key ++ [b])).getSlot = (crcNextByte (crcBytes 0 key) b &&& 0x3FFF).toNat := by
    intro b hopen hclose
    rw [feed_append, hfeed]
    cases f with
    | directByte => simp [feed, nextByte, directByte, hopen, getSlot]
    | betweenBraces => simp [feed, nextByte, betweenBraces, hclose, getSlot]
    | wholeKey => rfl
    | ignore => exact absurd rfl hf
  rw [hdigit _ (by decide) (by decide), hdigit _ (by decide) (by decide)]
  exact fun heq => crcNextByte_digits _ (BitVec.eq_of_toNat_eq heq)

end KeySlotCalc

example : keySlot (ascii "123456789") = 0x31C3 := by decide +kernel

end Cerberus
