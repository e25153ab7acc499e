import Cerberus.ClusterNodes
import Cerberus.Literals
import Mathlib.Data.List.Forall2

/-! # The text of `CLUSTER NODES`

The records a backend answers with, how they are written, and lines that are none.
`parse_slot_map` reads back the records that have not failed and drops the other lines. -/

namespace Cerberus

/-! ### Pieces of a text -/

/-- The pieces between separators that are not empty. -/
def pieces (d : Byte) (a : Bytes) : List Bytes := (a.splitOn d).filter fun w => w ≠ []

theorem modifyHead_nil_append (l : List Bytes) : l.modifyHead ([] ++ ·) = l := by
  cases l <;> rfl

theorem splitStrLoop_eq (delimiters : Bytes) (trimEmpty : Bool) : ∀ l word : Bytes,
    splitStrLoop delimiters trimEmpty word l =
      ((l.splitOnP fun b => b ∈ delimiters).modifyHead (word ++ ·)).flatMap (keepWord trimEmpty)
  | [], word => by
      rw [splitStrLoop, List.splitOnP_nil]
      simp
  | b :: l, word => by
      rw [splitStrLoop, List.splitOnP_cons_eq_if_modifyHead]
      by_cases hb : b ∈ delimiters
      · rw [if_pos hb, if_pos (decide_eq_true hb), splitStrLoop_eq delimiters trimEmpty l [],
          modifyHead_nil_append]
        simp
      · rw [if_neg hb, if_neg (by simpa using hb), splitStrLoop_eq delimiters trimEmpty l (word ++ [b]),
          List.modifyHead_modifyHead]
        congr 2
        funext w
        simp

theorem splitStr_eq (a : Bytes) (d : Byte) (trimEmpty : Bool) :
    splitStr a [d] trimEmpty = (a.splitOn d).flatMap (keepWord trimEmpty) := by
  have hp : (fun b => decide (b ∈ [d])) = (· == d) := by
    funext b
    rw [Bool.eq_iff_iff]
    simp
  rw [splitStr, splitStrLoop_eq, modifyHead_nil_append, hp, List.splitOn]

theorem splitStr_all (a : Bytes) (d : Byte) : splitStr a [d] false = a.splitOn d := by
  have hk : keepWord false = fun w => [w] := funext fun w => by simp [keepWord]
  rw [splitStr_eq, hk, List.flatMap_singleton']

theorem flatMap_keepWord : ∀ l : List Bytes, l.flatMap (keepWord true) = l.filter fun w => w ≠ []
  | [] => rfl
  | [] :: l => by
      rw [List.flatMap_cons, flatMap_keepWord l]
      rfl
  | (b :: w) :: l => by
      rw [List.flatMap_cons, flatMap_keepWord l]
      rfl

theorem splitStr_pieces (a : Bytes) (d : Byte) : splitStr a [d] true = pieces d a := by
  rw [splitStr_eq, flatMap_keepWord, pieces]

theorem beq_false_of_not_mem {a : Bytes} {d : Byte} (ha : d ∉ a) : ∀ b ∈ a, (b == d) = false := by
  intro b hb
  rw [beq_eq_false_iff_ne]
  rintro rfl
  exact ha hb

theorem splitOn_cons_sep {a : Bytes} {d : Byte} (ha : d ∉ a) (l : Bytes) :
    (a ++ d :: l).splitOn d = a :: l.splitOn d :=
  List.splitOnP_append_cons_of_forall_mem (beq_false_of_not_mem ha) d (beq_self_eq_true d) l

theorem splitOn_single {a : Bytes} {d : Byte} (ha : d ∉ a) : a.splitOn d = [a] :=
  List.splitOnP_eq_singleton (beq_false_of_not_mem ha)

theorem length_splitOn (d : Byte) : ∀ a : Bytes, (a.splitOn d).length = a.count d + 1
  | [] => rfl
  | b :: a => by
      have ih := length_splitOn d a
      rw [List.splitOn] at ih ⊢
      rw [List.splitOnP_cons_eq_if_modifyHead, List.count_cons]
      by_cases hb : b == d
      · rw [if_pos hb, if_pos hb, List.length_cons, ih]
      · rw [if_neg hb, if_neg hb, List.length_modifyHead, ih]

theorem headD_splitOn (d : Byte) : ∀ a : Bytes, (a.splitOn d).headD [] = a.takeWhile (· ≠ d)
  | [] => rfl
  | b :: a => by
      have ih := headD_splitOn d a
      rw [List.splitOn] at ih ⊢
      rw [List.splitOnP_cons_eq_if_modifyHead, List.takeWhile_cons]
      by_cases hb : b = d
      · rw [if_pos (beq_iff_eq.mpr hb), if_neg (by simpa using hb)]
        rfl
      · rw [if_neg (by simpa using hb), if_pos (by simpa using hb), ← ih]
        obtain ⟨w, ws, hw⟩ := List.exists_cons_of_ne_nil (List.splitOnP_ne_nil (· == d) a)
        rw [hw]
        rfl

/-! ### Records -/

/-- A field of a line. -/
structure Field where
  text : Bytes
  ne_nil : text ≠ []
  noSpace : chr ' ' ∉ text
  noNewline : LF ∉ text

/-- What is listed behind the fixed fields: slots, ranges of slots, and slots being moved. -/
inductive SlotWord where
  | single (s : Fin (2 ^ 31))
  | range (first last : Fin (2 ^ 31))
  | moving (text : Bytes) (noSpace : chr ' ' ∉ text) (noNewline : LF ∉ text)

def SlotWord.text : SlotWord → Bytes
  | single s => decimal s
  | range first last => decimal first ++ chr '-' :: decimal last
  | moving text _ _ => chr '[' :: text

/-- The range a word stands for. -/
def SlotWord.slots : SlotWord → Option (ℕ × ℕ)
  | single s => some (s, s)
  | range first last => some (first, last)
  | moving _ _ _ => none

/-- A line of the answer.  `busport` is what follows an `'@'`; `master` is missing for a `"-"`. -/
structure NodeRecord where
  id : Field
  host : Bytes
  port : Fin (2 ^ 31)
  busport : Option Bytes
  flags : Field
  master : Option Field
  pingSent : Field
  pongRecv : Field
  configEpoch : Field
  linkState : Field
  slotWords : List SlotWord
  host_plain : ∀ d ∈ ascii " \n:", d ∉ host
  busport_plain : ∀ t ∈ busport, ∀ d ∈ ascii " \n:", d ∉ t
  master_ne : ∀ m ∈ master, m.text ≠ ascii "-"

namespace NodeRecord

def portText (r : NodeRecord) : Bytes := decimal r.port ++ r.busport.elim [] (chr '@' :: ·)

def address (r : NodeRecord) : Bytes := r.host ++ chr ':' :: r.portText

def words (r : NodeRecord) : List Bytes :=
  r.id.text :: r.address :: r.flags.text :: r.master.elim (ascii "-") (·.text) :: r.pingSent.text ::
    r.pongRecv.text :: r.configEpoch.text :: r.linkState.text :: r.slotWords.map SlotWord.text

def line (r : NodeRecord) : Bytes := [chr ' '].intercalate r.words

/-- The ranges that are listed. -/
def ranges (r : NodeRecord) : List (ℕ × ℕ) := r.slotWords.filterMap SlotWord.slots

def Failed (r : NodeRecord) : Prop := ascii "fail" <:+: r.flags.text

def Myself (r : NodeRecord) : Prop := ascii "myself" <:+: r.flags.text

instance (r : NodeRecord) : Decidable r.Failed := inferInstanceAs (Decidable (_ <:+: _))
instance (r : NodeRecord) : Decidable r.Myself := inferInstanceAs (Decidable (_ <:+: _))

end NodeRecord

example : NodeRecord.line
    { id := ⟨ascii "a", by decide, by decide, by decide⟩, host := [], port := 7000
      busport := some (ascii "17000"), flags := ⟨ascii "myself,master", by decide, by decide, by decide⟩
      master := none, pingSent := ⟨ascii "0", by decide, by decide, by decide⟩
      pongRecv := ⟨ascii "0", by decide, by decide, by decide⟩
      configEpoch := ⟨ascii "1", by decide, by decide, by decide⟩
      linkState := ⟨ascii "connected", by decide, by decide, by decide⟩
      slotWords := [.single 5, .range 7 9, .moving (ascii "12->-b]") (by decide) (by decide)]
      host_plain := by decide +kernel, busport_plain := by decide +kernel, master_ne := nofun } =
    ascii "a :7000@17000 myself,master - 0 0 1 connected 5 7-9 [12->-b]" := by
  decide +kernel

/-- The order of pairs. -/
def RangeLt (x y : ℕ × ℕ) : Prop := x.1 < y.1 ∨ (x.1 = y.1 ∧ x.2 < y.2)

/-- What a node that was read is to be.  A set is the list of its elements in order. -/
structure Describes (defaultHost : Bytes) (r : NodeRecord) (n : RedisNode) : Prop where
  port : n.addr.port = r.port
  host : n.addr.host = if r.host = [] ∧ r.Myself then defaultHost else r.host
  id : n.nodeId = r.id.text
  master : n.masterId = r.master.elim [] (·.text)
  ordered : n.slotRanges.Pairwise RangeLt
  slots : ∀ rg, rg ∈ n.slotRanges ↔ rg ∈ r.ranges

/-! ### Lines that are no records -/

/-- Fewer than eight fields, an address without exactly one colon, a letter in the port, or a
letter in the first two numbers of a word behind the fixed fields. -/
inductive Unreadable (line : Bytes) : Prop
  | few (h : (pieces (chr ' ') line).length < 8)
  | address {a : Bytes} (ha : (pieces (chr ' ') line)[1]? = some a) (h : a.count (chr ':') ≠ 1)
  | port {host port : Bytes} {b : Byte}
      (ha : (pieces (chr ' ') line)[1]? = some (host ++ chr ':' :: port)) (hhost : chr ':' ∉ host)
      (hport : chr ':' ∉ port) (hb : b ∈ port.takeWhile fun b => b ≠ chr '@' ∧ b ≠ 0)
      (h : isalpha b = true)
  | slot {j : ℕ} {t w : Bytes} {b : Byte} (ht : (pieces (chr ' ') line)[j + 8]? = some t)
      (hmoving : t.head? ≠ some (chr '[')) (hw : w ∈ (pieces (chr '-') t).take 2) (hb : b ∈ w)
      (h : isalpha b = true)

/-- A line of a text: a record, or a line that is none. -/
inductive InfoLine where
  | record (r : NodeRecord)
  | other (text : Bytes) (noNewline : LF ∉ text) (unreadable : Unreadable text)

def InfoLine.text : InfoLine → Bytes
  | record r => r.line
  | other text _ _ => text

def InfoLine.toRecord : InfoLine → Option NodeRecord
  | record r => some r
  | other _ _ _ => none

def infoText (lines : List InfoLine) : Bytes := lines.flatMap fun l => l.text ++ [LF]

/-! ### Addresses -/

theorem fromHostPort_eq {host port : Bytes} (hhost : chr ':' ∉ host) (hport : chr ':' ∉ port) (junk : ℤ) :
    fromHostPort junk (host ++ chr ':' :: port) =
      (atoi junk (port.takeWhile fun b => b ≠ chr '@' ∧ b ≠ 0)).map fun p => ⟨host, p⟩ := by
  have hsplit : splitStr (host ++ chr ':' :: port) (ascii ":") false = [host, port] := by
    rw [show ascii ":" = [chr ':'] from rfl, splitStr_all, splitOn_cons_sep hhost, splitOn_single hport]
  have hfirst : ((splitStr port (ascii "@") false).headD []).takeWhile (· ≠ 0) =
      port.takeWhile fun b => b ≠ chr '@' ∧ b ≠ 0 := by
    rw [show ascii "@" = [chr '@'] from rfl, splitStr_all, headD_splitOn, List.takeWhile_takeWhile]
    congr 1
    funext b
    simp [and_comm]
  rw [fromHostPort, hsplit]
  dsimp only
  rw [hfirst]

theorem fromHostPort_colons {a : Bytes} (h : a.count (chr ':') ≠ 1) (junk : ℤ) : fromHostPort junk a = none := by
  have hlen : (splitStr a (ascii ":") false).length ≠ 2 := by
    rw [show ascii ":" = [chr ':'] from rfl, splitStr_all, length_splitOn]
    omega
  rw [fromHostPort]
  split
  · rename_i heq
    rw [heq] at hlen
    exact absurd rfl hlen
  · rfl

theorem not_mem_decimal {d : Byte} (hd : isdigit d = false) (n : ℕ) : d ∉ decimal n := fun h => by
  rw [decimal_digit h] at hd
  cases hd

namespace NodeRecord

variable (r : NodeRecord)

theorem not_mem_portText {d : Byte} (hd : d ∈ ascii " \n:") : d ∉ r.portText := by
  have hdigit : ∀ d ∈ ascii " \n:", isdigit d = false ∧ d ≠ chr '@' := by decide +kernel
  rw [portText, List.mem_append, not_or]
  refine ⟨not_mem_decimal (hdigit d hd).1 _, ?_⟩
  cases hb : r.busport with
  | none => exact List.not_mem_nil
  | some t =>
      simp only [Option.elim_some, List.mem_cons, not_or]
      exact ⟨(hdigit d hd).2, r.busport_plain t hb d hd⟩

theorem takeWhile_portText : (r.portText.takeWhile fun b => b ≠ chr '@' ∧ b ≠ 0) = decimal r.port := by
  have hdigit : ∀ b ∈ decimal r.port, decide (b ≠ chr '@' ∧ b ≠ 0) = true := by
    intro b hb
    have hd := decimal_digit hb
    rw [decide_eq_true_iff]
    constructor
    · rintro rfl; revert hd; decide
    · rintro rfl; revert hd; decide
  rw [portText, List.takeWhile_append_of_pos hdigit]
  cases r.busport with
  | none => simp
  | some t => simp

theorem fromHostPort_address (junk : ℤ) :
    fromHostPort junk r.address = some ⟨r.host, (r.port : ℕ)⟩ := by
  rw [address, fromHostPort_eq (r.host_plain _ (by decide)) (r.not_mem_portText (by decide)),
    takeWhile_portText, atoi_decimal r.port.isLt]
  rfl

end NodeRecord

/-! ### Slots -/

theorem pieces_single {d : Byte} {a : Bytes} (ha : d ∉ a) (hne : a ≠ []) : pieces d a = [a] := by
  rw [pieces, splitOn_single ha, List.filter_cons_of_pos (by simpa using hne)]
  rfl

theorem toSlot_of_lt {n : ℕ} (h : n < 2 ^ 31) : toSlot (n : ℤ) = n := by
  rw [toSlot, Int.emod_eq_of_lt] <;> omega

theorem decimal_head_ne (n : ℕ) {d : Byte} (hd : isdigit d = false) (l : Bytes) :
    (decimal n ++ l).head? ≠ some d := by
  rw [List.head?_append_of_ne_nil _ (decimal_ne_nil n)]
  intro h
  exact not_mem_decimal hd n (List.mem_of_head? h)

/-- A word behind the fixed fields is read as what it stands for. -/
theorem parseRange_text (junk : ℕ → ℤ) : ∀ w : SlotWord, parseRange junk w.text = some w.slots
  | .single s => by
      have hhead := decimal_head_ne s (d := chr '[') (by decide) []
      rw [List.append_nil] at hhead
      have hsplit : splitStr (decimal s) (ascii "-") true = [decimal s] := by
        rw [show ascii "-" = [chr '-'] from rfl, splitStr_pieces,
          pieces_single (not_mem_decimal (by decide) _) (decimal_ne_nil _)]
      rw [SlotWord.text, parseRange, if_neg hhead, hsplit]
      dsimp only
      rw [atoi_decimal s.isLt, Option.map_some, toSlot_of_lt s.isLt]
      rfl
  | .range first last => by
      have hsplit : splitStr (decimal first ++ chr '-' :: decimal last) (ascii "-") true =
          [decimal first, decimal last] := by
        rw [show ascii "-" = [chr '-'] from rfl, splitStr_pieces, pieces,
          splitOn_cons_sep (not_mem_decimal (by decide) _),
          splitOn_single (not_mem_decimal (by decide) _)]
        simp [decimal_ne_nil]
      rw [SlotWord.text, parseRange, if_neg (decimal_head_ne _ (by decide) _), hsplit]
      dsimp only
      rw [atoi_decimal first.isLt, Option.bind_some, atoi_decimal last.isLt, Option.map_some,
        toSlot_of_lt first.isLt, toSlot_of_lt last.isLt]
      rfl
  | .moving text _ _ => rfl

theorem parseRanges_texts : ∀ (ws : List SlotWord) (junk : ℕ → ℕ → ℤ) (rgs : List (ℕ × ℕ)),
    parseRanges junk (ws.map SlotWord.text) rgs =
      some ((ws.filterMap SlotWord.slots).foldl (fun rgs rg => insertRange rg rgs) rgs)
  | [], _, _ => rfl
  | w :: ws, junk, rgs => by
      rw [List.map_cons, parseRanges, parseRange_text, Option.bind_some, parseRanges_texts ws,
        List.filterMap_cons]
      cases w.slots <;> rfl

theorem mem_foldl_insertRange {rg : ℕ × ℕ} : ∀ l rgs : List (ℕ × ℕ),
    rg ∈ l.foldl (fun rgs rg => insertRange rg rgs) rgs ↔ rg ∈ l ∨ rg ∈ rgs
  | [], _ => by simp
  | x :: l, rgs => by
      rw [List.foldl_cons, mem_foldl_insertRange l, mem_insertRange, List.mem_cons]
      tauto

theorem insertRange_ordered (rg : ℕ × ℕ) : ∀ {l : List (ℕ × ℕ)}, l.Pairwise RangeLt →
    (insertRange rg l).Pairwise RangeLt
  | [], _ => List.pairwise_singleton _ _
  | x :: l, h => by
      rw [List.pairwise_cons] at h
      unfold insertRange
      split
      · exact List.pairwise_cons.mpr h
      · rename_i hne
        split
        · rename_i hlt
          refine List.pairwise_cons.mpr ⟨fun y hy => ?_, List.pairwise_cons.mpr h⟩
          rcases List.mem_cons.mp hy with rfl | hy
          · exact hlt
          · have := h.1 y hy
            unfold RangeLt at this ⊢
            omega
        · rename_i hlt
          refine List.pairwise_cons.mpr ⟨fun y hy => ?_, insertRange_ordered rg h.2⟩
          rcases mem_insertRange.mp hy with rfl | hy
          · unfold RangeLt
            rw [Prod.ext_iff] at hne
            omega
          · exact h.1 y hy

theorem foldl_insertRange_ordered : ∀ (l : List (ℕ × ℕ)) {rgs : List (ℕ × ℕ)}, rgs.Pairwise RangeLt →
    (l.foldl (fun rgs rg => insertRange rg rgs) rgs).Pairwise RangeLt
  | [], _, h => h
  | rg :: l, _, h => foldl_insertRange_ordered l (insertRange_ordered rg h)

/-! ### Lines -/

theorem newline_not_mem_intercalate : ∀ {l : List Bytes}, (∀ w ∈ l, LF ∉ w) → LF ∉ [chr ' '].intercalate l
  | [], _ => List.not_mem_nil
  | [w], h => by simpa using h w (by simp)
  | w :: v :: l, h => by
      have ih := newline_not_mem_intercalate (l := v :: l) fun x hx => h x (List.mem_cons_of_mem _ hx)
      have hw := h w List.mem_cons_self
      rw [List.intercalate_cons_cons, List.mem_append, List.mem_append, List.mem_singleton]
      rintro ((hm | hm) | hm)
      · exact hw hm
      · exact absurd hm (by decide)
      · exact ih hm

theorem fillHost_mk (defaultHost flags host nodeId masterId : Bytes) (port : ℤ) (rgs : List (ℕ × ℕ)) :
    fillHost defaultHost flags ⟨⟨host, port⟩, nodeId, masterId, rgs⟩ =
      ⟨⟨if host = [] ∧ ascii "myself" <:+: flags then defaultHost else host, port⟩, nodeId, masterId, rgs⟩ := by
  rw [fillHost]
  by_cases h : host = [] ∧ ascii "myself" <:+: flags
  · rw [if_pos h, if_pos h]
  · rw [if_neg h, if_neg h]

namespace NodeRecord

variable (r : NodeRecord)

/-- The node that is read from the record. -/
def node (defaultHost : Bytes) : RedisNode where
  addr := ⟨if r.host = [] ∧ r.Myself then defaultHost else r.host, (r.port : ℕ)⟩
  nodeId := r.id.text
  masterId := r.master.elim [] (·.text)
  slotRanges := r.ranges.foldl (fun rgs rg => insertRange rg rgs) []

theorem describes_node (defaultHost : Bytes) : Describes defaultHost r (r.node defaultHost) where
  port := rfl
  host := rfl
  id := rfl
  master := rfl
  ordered := foldl_insertRange_ordered _ List.Pairwise.nil
  slots rg := by
    rw [node, mem_foldl_insertRange]
    simp

/-- The words are words: none is empty, and there is no separator in them. -/
theorem words_plain : ∀ w ∈ r.words, w ≠ [] ∧ chr ' ' ∉ w ∧ LF ∉ w := by
  have hfield : ∀ f : Field, f.text ≠ [] ∧ chr ' ' ∉ f.text ∧ LF ∉ f.text := fun f =>
    ⟨f.ne_nil, f.noSpace, f.noNewline⟩
  have haddress : r.address ≠ [] ∧ chr ' ' ∉ r.address ∧ LF ∉ r.address := by
    have hno : ∀ d ∈ ascii " \n", d ∉ r.address := by
      intro d hd
      have hd' : d ∈ ascii " \n:" ∧ d ≠ chr ':' := by
        revert d
        decide +kernel
      simp only [address, List.mem_append, List.mem_cons, not_or]
      exact ⟨r.host_plain d hd'.1, hd'.2, r.not_mem_portText hd'.1⟩
    exact ⟨by simp [address], hno _ (by decide), hno _ (by decide)⟩
  have hmaster : ∀ m : Option Field, m.elim (ascii "-") (·.text) ≠ [] ∧
      chr ' ' ∉ m.elim (ascii "-") (·.text) ∧ LF ∉ m.elim (ascii "-") (·.text) := by
    intro m
    cases m with
    | none => exact ⟨by decide, by decide, by decide⟩
    | some f => exact hfield f
  have hslot : ∀ w : SlotWord, w.text ≠ [] ∧ chr ' ' ∉ w.text ∧ LF ∉ w.text := by
    have hdec := fun n {d : Byte} (hd : isdigit d = false) => not_mem_decimal hd n
    intro w
    cases w with
    | single s => exact ⟨decimal_ne_nil _, hdec _ (by decide), hdec _ (by decide)⟩
    | range first last =>
        simp only [SlotWord.text, List.mem_append, List.mem_cons, not_or]
        exact ⟨by simp, ⟨hdec _ (by decide), by decide, hdec _ (by decide)⟩,
          hdec _ (by decide), by decide, hdec _ (by decide)⟩
    | moving text hs hn =>
        simp only [SlotWord.text, List.mem_cons, not_or]
        exact ⟨by simp, ⟨by decide, hs⟩, by decide, hn⟩
  intro w hw
  simp only [words, List.mem_cons] at hw
  rcases hw with rfl | rfl | rfl | rfl | rfl | rfl | rfl | rfl | hw
  · exact hfield _
  · exact haddress
  · exact hfield _
  · exact hmaster _
  · exact hfield _
  · exact hfield _
  · exact hfield _
  · exact hfield _
  · obtain ⟨x, -, rfl⟩ := List.mem_map.mp hw
    exact hslot x

theorem pieces_line : pieces (chr ' ') r.line = r.words := by
  rw [pieces, line, List.splitOn_intercalate _ (fun w hw => (r.words_plain w hw).2.1) (by simp [words]),
    List.filter_eq_self]
  intro w hw
  exact decide_eq_true (r.words_plain w hw).1

theorem newline_not_mem_line : LF ∉ r.line :=
  newline_not_mem_intercalate fun w hw => (r.words_plain w hw).2.2

/-- A record is read as its node, unless it has failed. -/
theorem parseLine_line (junk : ℕ → ℕ → ℤ) (defaultHost : Bytes) :
    parseLine junk defaultHost r.line = if r.Failed then none else some (r.node defaultHost) := by
  have hsplit : splitStr r.line (ascii " ") true = r.words := by
    rw [show ascii " " = [chr ' '] from rfl, splitStr_pieces, pieces_line]
  have hmaster : (if r.master.elim (ascii "-") (·.text) = ascii "-" then []
      else r.master.elim (ascii "-") (·.text)) = r.master.elim [] (·.text) := by
    cases hm : r.master with
    | none => rfl
    | some m => exact if_neg (r.master_ne m hm)
  rw [parseLine, hsplit, words]
  dsimp only
  refine if_congr Iff.rfl rfl ?_
  rw [parseNode, fromHostPort_address, Option.bind_some, parseRanges_texts, Option.map_some, hmaster,
    Option.map_some, fillHost_mk]
  rfl

end NodeRecord

theorem parseLine_few {line : Bytes} (h : (pieces (chr ' ') line).length < 8) (junk : ℕ → ℕ → ℤ)
    (defaultHost : Bytes) : parseLine junk defaultHost line = none := by
  rw [← splitStr_pieces] at h
  rw [parseLine, show ascii " " = [chr ' '] from rfl]
  split
  · rename_i heq
    rw [heq] at h
    simp only [List.length_cons] at h
    omega
  · rfl

/-- A line whose address or slots cannot be read is dropped. -/
theorem parseLine_eq_none {line : Bytes} {junk : ℕ → ℕ → ℤ}
    (h : (∃ a, (pieces (chr ' ') line)[1]? = some a ∧ fromHostPort (junk 0 0) a = none) ∨
      ∃ (j : ℕ) (t : Bytes), (pieces (chr ' ') line)[j + 8]? = some t ∧ parseRange (junk (j + 1)) t = none)
    (defaultHost : Bytes) : parseLine junk defaultHost line = none := by
  simp only [← splitStr_pieces] at h
  rw [parseLine, show ascii " " = [chr ' '] from rfl]
  split
  · rename_i heq
    rw [heq] at h
    split
    · rfl
    · rw [Option.map_eq_none_iff, parseNode]
      rcases h with ⟨a, ha, hnone⟩ | ⟨j, t, ht, hnone⟩
      · cases ha
        rw [hnone]
        rfl
      · rw [Option.bind_eq_none_iff]
        intro addr _
        rw [Option.map_eq_none_iff]
        cases hrgs : parseRanges _ _ _ with
        | none => rfl
        | some rgs =>
            have := (parseRanges_eq_some hrgs).1 j t (by simpa using ht)
            rw [hnone] at this
            cases this
  · rfl

theorem parseRange_letter {t w : Bytes} {b : Byte} (hmoving : t.head? ≠ some (chr '['))
    (hw : w ∈ (pieces (chr '-') t).take 2) (hb : b ∈ w) (h : isalpha b = true) (junk : ℕ → ℤ) :
    parseRange junk t = none := by
  rw [parseRange, if_neg hmoving, show ascii "-" = [chr '-'] from rfl, splitStr_pieces]
  have hnone := atoi_letter hb h
  split
  · rename_i heq
    rw [heq] at hw
    cases hw
  · rename_i heq
    rw [heq] at hw
    simp only [List.take_succ_cons, List.take_nil, List.mem_singleton] at hw
    rw [← hw, hnone]
    rfl
  · rename_i first last rest heq
    rw [heq] at hw
    simp only [List.take_succ_cons, List.take_zero, List.mem_cons, List.not_mem_nil, or_false] at hw
    rcases hw with rfl | rfl
    · rw [hnone]
      rfl
    · cases atoi (junk 0) first with
      | none => rfl
      | some a => rw [Option.bind_some, hnone]; rfl

theorem Unreadable.parseLine {line : Bytes} (h : Unreadable line) (junk : ℕ → ℕ → ℤ) (defaultHost : Bytes) :
    parseLine junk defaultHost line = none := by
  cases h with
  | few h => exact parseLine_few h junk defaultHost
  | address ha h => exact parseLine_eq_none (Or.inl ⟨_, ha, fromHostPort_colons h _⟩) defaultHost
  | port ha hhost hport hb h =>
      refine parseLine_eq_none (Or.inl ⟨_, ha, ?_⟩) defaultHost
      rw [fromHostPort_eq hhost hport, atoi_letter hb h]
      rfl
  | slot ht hmoving hw hb h =>
      exact parseLine_eq_none (Or.inr ⟨_, _, ht, parseRange_letter hmoving hw hb h _⟩) defaultHost

/-! ### The whole answer -/

/-- The node that is read from a line. -/
def InfoLine.node (defaultHost : Bytes) : InfoLine → Option RedisNode
  | record r => if r.Failed then none else some (r.node defaultHost)
  | other _ _ _ => none

theorem InfoLine.parseLine_text (junk : ℕ → ℕ → ℤ) (defaultHost : Bytes) :
    ∀ l : InfoLine, parseLine junk defaultHost l.text = l.node defaultHost
  | record r => r.parseLine_line junk defaultHost
  | other _ _ h => h.parseLine junk defaultHost

theorem InfoLine.newline_not_mem : ∀ l : InfoLine, LF ∉ l.text
  | record r => r.newline_not_mem_line
  | other _ h _ => h

theorem splitOn_infoText (tail : Bytes) : ∀ lines : List InfoLine,
    (infoText lines ++ tail).splitOn LF = lines.map InfoLine.text ++ tail.splitOn LF
  | [] => rfl
  | l :: lines => by
      have heq : infoText (l :: lines) ++ tail = l.text ++ LF :: (infoText lines ++ tail) := by
        simp [infoText]
      rw [heq, splitOn_cons_sep l.newline_not_mem, splitOn_infoText tail lines]
      rfl

/-- The lines of the reply: its header, those of the text, and what the last line break leaves. -/
theorem splitOn_encodeBulk (lines : List InfoLine) : (encodeBulk (infoText lines)).splitOn LF =
    (chr '$' :: (decimal (infoText lines).length ++ [CR])) :: (lines.map InfoLine.text ++ [[CR], []]) := by
  have heq : encodeBulk (infoText lines) =
      (chr '$' :: (decimal (infoText lines).length ++ [CR])) ++ LF :: (infoText lines ++ crlf) := by
    simp [encodeBulk, crlf]
  have hno : LF ∉ chr '$' :: (decimal (infoText lines).length ++ [CR]) := by
    simp only [List.mem_cons, List.mem_append, not_or]
    exact ⟨by decide, not_mem_decimal (by decide) _, by decide, List.not_mem_nil⟩
  rw [heq, splitOn_cons_sep hno, splitOn_infoText]
  rfl

theorem parseLine_word {w : Bytes} (h : chr ' ' ∉ w) (junk : ℕ → ℕ → ℤ) (defaultHost : Bytes) :
    parseLine junk defaultHost w = none := by
  refine parseLine_few ?_ junk defaultHost
  rw [pieces, splitOn_single h]
  exact Nat.lt_of_le_of_lt (List.length_filter_le _ _) (by simp)

/-- Reading the lines does not depend on what `atoi` finds in variables. -/
theorem parseSlotMap_eq {info defaultHost : Bytes} {f : Bytes → Option RedisNode} (junk : ℕ → ℕ → ℕ → ℤ)
    (h : ∀ line ∈ info.splitOn LF, ∀ junk, parseLine junk defaultHost line = f line) (hnil : f [] = none) :
    parseSlotMap junk info defaultHost = (info.splitOn LF).filterMap f := by
  have hstep : parseSlotMap junk info defaultHost =
      (splitStr info (ascii "\n") true).zipIdx.filterMap (f ∘ Prod.fst) := by
    refine List.filterMap_congr fun p hp => ?_
    have hmem := List.mem_zipIdx_iff_getElem?.mp hp
    rw [show ascii "\n" = [LF] from rfl, splitStr_pieces] at hmem
    exact h p.1 (List.mem_filter.mp (List.mem_of_getElem? hmem)).1 _
  rw [hstep, ← List.filterMap_map, List.zipIdx_map_fst, show ascii "\n" = [LF] from rfl, splitStr_pieces,
    pieces, List.filterMap_filter]
  refine List.filterMap_congr fun w _ => ?_
  cases w with
  | nil => exact hnil.symm
  | cons b w => rfl

theorem forall₂_nodes (defaultHost : Bytes) : ∀ lines : List InfoLine,
    List.Forall₂ (Describes defaultHost)
      ((lines.filterMap InfoLine.toRecord).filter fun r => ¬ r.Failed)
      (lines.filterMap (InfoLine.node defaultHost))
  | [] => .nil
  | .other _ _ _ :: lines => forall₂_nodes defaultHost lines
  | .record r :: lines => by
      have ih := forall₂_nodes defaultHost lines
      rw [List.filterMap_cons, List.filterMap_cons, InfoLine.toRecord, InfoLine.node]
      by_cases hf : r.Failed
      · rw [if_pos hf, List.filter_cons_of_neg (by simpa using hf)]
        exact ih
      · rw [if_neg hf, List.filter_cons_of_pos (by simpa using hf)]
        exact .cons (r.describes_node defaultHost) ih

/-- `parse_slot_map` reads back the records of an answer that have not failed, in order, whatever
lines that are no records stand between them. -/
theorem parseSlotMap_records (junk : ℕ → ℕ → ℕ → ℤ) (defaultHost : Bytes) (lines : List InfoLine) :
    List.Forall₂ (Describes defaultHost)
      ((lines.filterMap InfoLine.toRecord).filter fun r => ¬ r.Failed)
      (parseSlotMap junk (encodeBulk (infoText lines)) defaultHost) := by
  have hheader : chr ' ' ∉ chr '$' :: (decimal (infoText lines).length ++ [CR]) := by
    simp only [List.mem_cons, List.mem_append, not_or]
    exact ⟨by decide, not_mem_decimal (by decide) _, by decide, List.not_mem_nil⟩
  -- every line is read in the same way whatever `atoi` finds
  have hline : ∀ line ∈ (encodeBulk (infoText lines)).splitOn LF, ∀ junk,
      parseLine junk defaultHost line = parseLine (fun _ _ => 0) defaultHost line := by
    intro line hmem junk
    rw [splitOn_encodeBulk, List.mem_cons, List.mem_append, List.mem_map] at hmem
    rcases hmem with rfl | ⟨l, -, rfl⟩ | hmem
    · rw [parseLine_word hheader, parseLine_word hheader]
    · rw [l.parseLine_text, l.parseLine_text]
    · have hno : chr ' ' ∉ line := by
        revert line
        decide
      rw [parseLine_word hno, parseLine_word hno]
  rw [parseSlotMap_eq junk hline rfl, splitOn_encodeBulk, List.filterMap_cons, parseLine_word hheader,
    List.filterMap_append, List.filterMap_map]
  have hend : [[CR], []].filterMap (parseLine (fun _ _ => 0) defaultHost) = [] := rfl
  rw [hend, List.append_nil]
  have hnode : parseLine (fun _ _ => 0) defaultHost ∘ InfoLine.text = InfoLine.node defaultHost :=
    funext fun l => l.parseLine_text _ _
  rw [hnode]
  exact forall₂_nodes defaultHost lines

end Cerberus
