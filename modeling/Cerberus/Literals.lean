import Mathlib.Data.List.TakeWhile
import Cerberus.Resp

/-! # Integer literals

What `util::atoi` is for: reading a decimal literal with blanks around it.  A string splits
into blanks, a sign, digits and a rest, and the split is the one the stream makes; the
literals and the strings `atoi` takes for one are both read off it. -/

namespace Cerberus

/-! ### Literals -/

def Blank (a : Bytes) : Prop := ∀ b ∈ a, isspace b = true

def Digits (a : Bytes) : Prop := ∀ b ∈ a, isdigit b = true

/-- The signs of a literal; the Boolean is whether it is negative. -/
inductive Sign : Bool → Bytes → Prop
  | none : Sign false []
  | plus : Sign false [chr '+']
  | minus : Sign true [chr '-']

def signed (neg : Bool) (ds : Bytes) : ℤ := if neg then -(digitsValue ds : ℤ) else digitsValue ds

def InInt (n : ℤ) : Prop := intMin ≤ n ∧ n ≤ intMax

/-- `a` is optional blanks, a decimal literal of `n` within the range of `int`, and optional
blanks. -/
def Denotes (a : Bytes) (n : ℤ) : Prop :=
  ∃ pre s ds post neg, a = pre ++ (s ++ ds) ++ post ∧ Blank pre ∧ Blank post ∧ Sign neg s ∧
    ds ≠ [] ∧ Digits ds ∧ n = signed neg ds ∧ InInt n

/-- Blanks, and then nothing, a bare sign, or a literal out of range that ends the string. -/
def Loose (a : Bytes) : Prop :=
  ∃ pre s ds neg, a = pre ++ (s ++ ds) ∧ Blank pre ∧ Sign neg s ∧ Digits ds ∧
    (ds = [] ∨ ¬ InInt (signed neg ds))

instance (n : ℤ) : Decidable (InInt n) := inferInstanceAs (Decidable (_ ∧ _))

/-! ### The split of a string -/

/-- Whether the literal is negative, and what follows the blanks and the sign. -/
def unsign (a : Bytes) : Bool × Bytes := splitSign (a.dropWhile isspace)

/-- The digits of the literal. -/
def digitsOf (a : Bytes) : Bytes := (unsign a).2.takeWhile isdigit

/-- What follows the digits. -/
def afterDigits (a : Bytes) : Bytes := (unsign a).2.dropWhile isdigit

def valueOf (a : Bytes) : ℤ := signed (unsign a).1 (digitsOf a)

theorem isspace_of_isdigit {b : Byte} (h : isdigit b = true) : isspace b = false := by
  simp only [isdigit, Bool.and_eq_true, decide_eq_true_eq, UInt8.le_iff_toNat_le] at h
  simp only [isspace, Bool.or_eq_false_iff, beq_eq_false_iff_ne, Bool.and_eq_false_iff,
    decide_eq_false_iff_not, UInt8.le_iff_toNat_le, ne_eq, UInt8.ext_iff]
  have h1 : (48 : UInt8).toNat = 48 := rfl
  have h2 : (32 : UInt8).toNat = 32 := rfl
  have h3 : (13 : UInt8).toNat = 13 := rfl
  omega

theorem Blank.dropWhile_append {pre : Bytes} (h : Blank pre) (l : Bytes) :
    (pre ++ l).dropWhile isspace = l.dropWhile isspace :=
  List.dropWhile_append_of_pos h

theorem Blank.dropWhile_self {post : Bytes} (h : Blank post) : post.dropWhile isspace = [] :=
  List.dropWhile_eq_nil_iff.mpr h

theorem Blank.dropWhile_digits {post : Bytes} (h : Blank post) :
    post.takeWhile isdigit = [] ∧ post.dropWhile isdigit = post := by
  cases post with
  | nil => exact ⟨rfl, rfl⟩
  | cons b l =>
      have hb : isdigit b = false := by
        by_contra hd
        have := isspace_of_isdigit (by simpa using hd)
        rw [h b (by simp)] at this
        cases this
      rw [List.takeWhile_cons, List.dropWhile_cons, hb]
      exact ⟨rfl, rfl⟩

/-- The sign is where `splitSign` looks for it; without one the first character is a digit. -/
theorem Sign.splitSign {neg : Bool} {s l : Bytes} (hs : Sign neg s)
    (hl : l = [] ∨ ∃ d r, l = d :: r ∧ isdigit d = true) : splitSign (s ++ l) = (neg, l) := by
  cases hs with
  | none =>
      rcases hl with rfl | ⟨d, r, rfl, hd⟩
      · rfl
      · have hm : d ≠ chr '-' := by rintro rfl; revert hd; decide
        have hp : d ≠ chr '+' := by rintro rfl; revert hd; decide
        rw [List.nil_append, Cerberus.splitSign, if_neg hm, if_neg hp]
  | plus => rfl
  | minus => rfl

theorem Sign.dropWhile {neg : Bool} {s l : Bytes} (hs : Sign neg s)
    (hl : l = [] ∨ ∃ d r, l = d :: r ∧ isdigit d = true) :
    (s ++ l).dropWhile isspace = s ++ l := by
  cases hs with
  | none =>
      rcases hl with rfl | ⟨d, r, rfl, hd⟩
      · rfl
      · rw [List.nil_append, List.dropWhile_cons, isspace_of_isdigit hd]
        rfl
  | plus => rfl
  | minus => rfl

/-- A string put together from blanks, a sign, digits and blanks splits into them. -/
theorem split_of {pre s ds post : Bytes} {neg : Bool} (hpre : Blank pre) (hs : Sign neg s)
    (hds : Digits ds) (hpost : Blank post) (h : ds ≠ [] ∨ post = []) :
    unsign (pre ++ (s ++ ds) ++ post) = (neg, ds ++ post) ∧
      digitsOf (pre ++ (s ++ ds) ++ post) = ds ∧ afterDigits (pre ++ (s ++ ds) ++ post) = post := by
  have hl : ds ++ post = [] ∨ ∃ d r, ds ++ post = d :: r ∧ isdigit d = true := by
    cases ds with
    | nil => exact Or.inl (by simpa using h)
    | cons d r => exact Or.inr ⟨d, r ++ post, rfl, hds d (by simp)⟩
  have hu : unsign (pre ++ (s ++ ds) ++ post) = (neg, ds ++ post) := by
    rw [unsign, List.append_assoc, hpre.dropWhile_append, List.append_assoc, hs.dropWhile hl,
      hs.splitSign hl]
  refine ⟨hu, ?_, ?_⟩
  · rw [digitsOf, hu, List.takeWhile_append_of_pos hds, hpost.dropWhile_digits.1, List.append_nil]
  · rw [afterDigits, hu, List.dropWhile_append_of_pos hds, hpost.dropWhile_digits.2]

theorem takeWhile_all (p : Byte → Bool) (a : Bytes) : ∀ b ∈ a.takeWhile p, p b = true :=
  fun _ hb => List.mem_takeWhile_imp hb

theorem exists_sign (l : Bytes) : ∃ s, Sign (splitSign l).1 s ∧ l = s ++ (splitSign l).2 := by
  cases l with
  | nil => exact ⟨[], .none, rfl⟩
  | cons b l =>
      rw [splitSign]
      split
      · rename_i hb; exact ⟨[chr '-'], .minus, by rw [hb]; rfl⟩
      · split
        · rename_i hb; exact ⟨[chr '+'], .plus, by rw [hb]; rfl⟩
        · exact ⟨[], .none, rfl⟩

/-- Every string splits. -/
theorem exists_split (a : Bytes) : ∃ pre s, Blank pre ∧ Sign (unsign a).1 s ∧
    a = pre ++ (s ++ digitsOf a) ++ afterDigits a := by
  obtain ⟨s, hs, hl⟩ := exists_sign (a.dropWhile isspace)
  refine ⟨a.takeWhile isspace, s, takeWhile_all _ _, hs, ?_⟩
  rw [List.append_assoc, List.append_assoc, digitsOf, afterDigits, List.takeWhile_append_dropWhile,
    unsign, ← hl, List.takeWhile_append_dropWhile]

theorem denotes_iff (a : Bytes) (n : ℤ) : Denotes a n ↔
    digitsOf a ≠ [] ∧ (afterDigits a).dropWhile isspace = [] ∧ valueOf a = n ∧ InInt n := by
  constructor
  · rintro ⟨pre, s, ds, post, neg, rfl, hpre, hpost, hs, hne, hds, rfl, hn⟩
    obtain ⟨hu, hd, hp⟩ := split_of hpre hs hds hpost (Or.inl hne)
    rw [valueOf, hu, hd, hp]
    exact ⟨hne, hpost.dropWhile_self, rfl, hn⟩
  · rintro ⟨hne, hpost, hv, hn⟩
    obtain ⟨pre, s, hpre, hs, ha⟩ := exists_split a
    exact ⟨pre, s, digitsOf a, afterDigits a, _, ha, hpre, List.dropWhile_eq_nil_iff.mp hpost, hs,
      hne, takeWhile_all _ _, hv.symm, hn⟩

theorem loose_iff (a : Bytes) : Loose a ↔
    afterDigits a = [] ∧ (digitsOf a = [] ∨ ¬ InInt (valueOf a)) := by
  constructor
  · rintro ⟨pre, s, ds, neg, rfl, hpre, hs, hds, h⟩
    have hsp := split_of hpre hs hds (by simp [Blank] : Blank []) (Or.inr rfl)
    rw [List.append_nil] at hsp
    obtain ⟨hu, hd, hp⟩ := hsp
    rw [valueOf, hu, hd, hp]
    exact ⟨rfl, h⟩
  · rintro ⟨hrest, h⟩
    obtain ⟨pre, s, hpre, hs, ha⟩ := exists_split a
    rw [hrest, List.append_nil] at ha
    exact ⟨pre, s, digitsOf a, _, ha, hpre, hs, takeWhile_all _ _, h⟩

/-! ### `atoi` -/

/-- `atoi` on the split of its argument. -/
theorem atoi_split (junk : ℤ) (a : Bytes) : atoi junk a =
    if a.dropWhile isspace = [] then some junk
    else if digitsOf a = [] then if afterDigits a = [] then some 0 else none
    else if valueOf a < intMin then if afterDigits a = [] then some intMin else none
    else if intMax < valueOf a then if afterDigits a = [] then some intMax else none
    else if (afterDigits a).dropWhile isspace = [] then some (valueOf a) else none := by
  unfold atoi valueOf signed digitsOf afterDigits unsign
  cases a.dropWhile isspace with
  | nil => rfl
  | cons b l => rw [if_neg (List.cons_ne_nil b l)]

/-- A string of blanks has no digits and nothing behind them. -/
theorem unsign_blank {a : Bytes} (h : a.dropWhile isspace = []) :
    digitsOf a = [] ∧ afterDigits a = [] := by
  rw [digitsOf, afterDigits, unsign, h]
  exact ⟨rfl, rfl⟩

theorem atoi_loose {a : Bytes} (h : Loose a) (junk : ℤ) : atoi junk a ≠ none := by
  obtain ⟨hrest, h⟩ := (loose_iff a).mp h
  rw [atoi_split, hrest]
  split_ifs <;> simp_all [InInt]

/-- What `atoi` answers on a string that is not loose. -/
theorem atoi_eq {a : Bytes} (h : ¬ Loose a) (junk : ℤ) : atoi junk a =
    if digitsOf a ≠ [] ∧ (afterDigits a).dropWhile isspace = [] ∧ InInt (valueOf a)
    then some (valueOf a) else none := by
  rw [loose_iff] at h
  have hblank : a.dropWhile isspace ≠ [] := fun hb =>
    h ⟨(unsign_blank hb).2, Or.inl (unsign_blank hb).1⟩
  rw [atoi_split, if_neg hblank]
  by_cases hd : digitsOf a = []
  · have hr : afterDigits a ≠ [] := fun hr => h ⟨hr, Or.inl hd⟩
    rw [if_pos hd, if_neg hr, if_neg fun hc => hc.1 hd]
  · rw [if_neg hd]
    by_cases hn : InInt (valueOf a)
    · rw [if_neg (by have := hn.1; omega), if_neg (by have := hn.2; omega)]
      simp only [ne_eq, hd, not_false_eq_true, hn, and_true, true_and]
    · have hr : afterDigits a ≠ [] := fun hr => h ⟨hr, Or.inr hn⟩
      rw [if_neg hr, if_neg hr, if_neg (c := _ ∧ _ ∧ _) fun hc => hn hc.2.2]
      split
      · rfl
      · rw [if_pos (by rw [InInt] at hn; omega)]

/-- `util::atoi` is exact on a string just when the string is not loose. -/
theorem atoi_exact_iff (a : Bytes) :
    ((∀ n, Denotes a n → ∀ junk, atoi junk a = some n) ∧
      ((∀ n, ¬ Denotes a n) → ∀ junk, atoi junk a = none)) ↔ ¬ Loose a := by
  constructor
  · rintro ⟨-, hbad⟩ hl
    -- no literal is loose, so the second half applies to a string that `atoi` takes
    refine atoi_loose hl 0 (hbad (fun n hn => ?_) 0)
    obtain ⟨hne, -, rfl, hr⟩ := (denotes_iff a n).mp hn
    rcases ((loose_iff a).mp hl).2 with h | h
    · exact hne h
    · exact h hr
  · intro hl
    refine ⟨fun n hn junk => ?_, fun hno junk => ?_⟩
    · obtain ⟨hne, hpost, rfl, hr⟩ := (denotes_iff a n).mp hn
      rw [atoi_eq hl, if_pos ⟨hne, hpost, hr⟩]
    · rw [atoi_eq hl, if_neg]
      rintro ⟨hne, hpost, hr⟩
      exact hno _ ((denotes_iff a _).mpr ⟨hne, hpost, rfl, hr⟩)

/-- The empty string denotes nothing, and what the target held before is taken for its value. -/
theorem atoi_takes_empty : (∀ n, ¬ Denotes [] n) ∧ ∀ junk, atoi junk [] = some junk := by
  refine ⟨fun n h => ?_, fun _ => rfl⟩
  exact ((denotes_iff [] n).mp h).1 rfl

/-! ### Printed numbers and letters -/

theorem digitsValue_decimalLoop : ∀ (fuel n : ℕ) (acc : Bytes), n < fuel →
    digitsValue (decimalLoop fuel n acc) = acc.foldl (fun i b => i * 10 + (b.toNat - 48)) n
  | 0, _, _, h => absurd h (Nat.not_lt_zero _)
  | fuel + 1, n, acc, h => by
      have hdigit : ∀ d < 10, (d + 48).toUInt8.toNat - 48 = d := by decide
      rw [decimalLoop]
      split
      · rename_i h10
        rw [digitsValue, List.foldl_cons, hdigit n h10, Nat.zero_mul, Nat.zero_add]
      · rw [digitsValue_decimalLoop fuel (n / 10) _ (by omega), List.foldl_cons,
          hdigit (n % 10) (by omega), Nat.div_add_mod']

theorem digitsValue_decimal (n : ℕ) : digitsValue (decimal n) = n :=
  digitsValue_decimalLoop (n + 1) n [] n.lt_succ_self

/-- A number that is printed is read back. -/
theorem atoi_decimal {n : ℕ} (h : n < 2 ^ 31) (junk : ℤ) : atoi junk (decimal n) = some (n : ℤ) := by
  obtain ⟨hu, hd, hr⟩ := split_of (by simp [Blank] : Blank []) .none
    (fun b => decimal_digit (n := n) (b := b)) (by simp [Blank] : Blank []) (Or.inr rfl)
  simp only [List.nil_append, List.append_nil] at hu hd hr
  have hv : valueOf (decimal n) = n := by
    rw [valueOf, hu, hd, signed, digitsValue_decimal]
    rfl
  have hin : InInt (n : ℤ) := by
    constructor
    · rw [intMin]; omega
    · rw [intMax]; omega
  have hl : ¬ Loose (decimal n) := by
    rw [loose_iff, hd, hv]
    exact fun h => h.2.elim (decimal_ne_nil n) (absurd hin)
  rw [atoi_eq hl, hd, hr, hv, if_pos ⟨decimal_ne_nil n, rfl, hin⟩]

/-- `std::isalpha` -/
def isalpha (b : Byte) : Bool := (65 ≤ b && b ≤ 90) || (97 ≤ b && b ≤ 122)

theorem isalpha_not {b : Byte} (h : isalpha b = true) :
    isspace b = false ∧ isdigit b = false ∧ b ≠ chr '+' ∧ b ≠ chr '-' := by
  simp only [isalpha, Bool.or_eq_true, Bool.and_eq_true, decide_eq_true_eq, UInt8.le_iff_toNat_le] at h
  simp only [isspace, isdigit, Bool.or_eq_false_iff, beq_eq_false_iff_ne, Bool.and_eq_false_iff,
    decide_eq_false_iff_not, UInt8.le_iff_toNat_le, ne_eq, UInt8.ext_iff]
  simp only [UInt8.reduceToNat, show (chr '+').toNat = 43 from rfl, show (chr '-').toNat = 45 from rfl] at h ⊢
  omega

/-- A string with a letter in it is refused. -/
theorem atoi_letter {a : Bytes} {b : Byte} (hb : b ∈ a) (ha : isalpha b = true) (junk : ℤ) :
    atoi junk a = none := by
  obtain ⟨hspace, hdigit, hplus, hminus⟩ := isalpha_not ha
  obtain ⟨pre, s, hpre, hs, heq⟩ := exists_split a
  have hrest : b ∈ afterDigits a := by
    rw [heq, List.mem_append, List.mem_append, List.mem_append] at hb
    rcases hb with (hb | hb | hb) | hb
    · rw [hpre b hb] at hspace; cases hspace
    · generalize (unsign a).1 = neg at hs
      cases hs with
      | none => cases hb
      | plus => exact absurd (List.mem_singleton.mp hb) hplus
      | minus => exact absurd (List.mem_singleton.mp hb) hminus
    · rw [takeWhile_all _ _ b hb] at hdigit; cases hdigit
    · exact hb
  have hl : ¬ Loose a := fun h => by
    rw [((loose_iff a).mp h).1] at hrest
    cases hrest
  rw [atoi_eq hl, if_neg]
  rintro ⟨-, hblank, -⟩
  rw [List.dropWhile_eq_nil_iff.mp hblank b hrest] at hspace
  cases hspace

end Cerberus
