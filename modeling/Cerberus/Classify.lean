import Cerberus.Reads
import Mathlib.Data.List.Forall2

/-! # What becomes of a response

A response is to be tried again, or is an error, because of the value itself.  The splitter
decides by the last error string it has come across in the value, at whatever depth, and takes an
empty one for none; `splitServerResponse_classified_iff` says for which values this makes no
difference. -/

namespace Cerberus

open Frames

/-! ### Strings that start with others -/

/-- A string starts with another one, ignoring case. -/
def StartsWith (s pre : Bytes) : Prop := pre.map toupper <+: s.map toupper

theorem strnieqLoop_startsWith {sizes : Bool} : ∀ {s pre : Bytes}, (s.length < pre.length → sizes = false) →
    (strnieqLoop sizes pre.length s pre = true ↔ StartsWith s pre)
  | s, [], _ => by
      rw [List.length_nil, strnieqLoop]
      exact iff_of_true rfl List.nil_prefix
  | [], b :: pre, h => by
      rw [List.length_cons, strnieqLoop, h (Nat.succ_pos _)]
      refine iff_of_false Bool.false_ne_true fun hpre => ?_
      cases List.prefix_nil.mp hpre
  | a :: s, b :: pre, h => by
      have hsize : s.length < pre.length → sizes = false := fun hlt => h (Nat.succ_lt_succ hlt)
      have ih := strnieqLoop_startsWith hsize
      rw [List.length_cons, strnieqLoop, StartsWith, List.map_cons, List.map_cons, List.cons_prefix_cons]
      by_cases hab : toupper a = toupper b
      · rw [if_neg (not_not.mpr hab), ih]
        exact (and_iff_right hab.symm).symm
      · rw [if_pos hab]
        exact iff_of_false Bool.false_ne_true fun hpre => hab hpre.1.symm

theorem stristartswith_iff (s pre : Bytes) : stristartswith s pre = true ↔ StartsWith s pre := by
  refine strnieqLoop_startsWith fun hlt => ?_
  rw [beq_eq_false_iff_ne]
  exact hlt.ne

/-! ### Values and their errors -/

namespace Resp

/-- The value is an error that a command is tried again for. -/
def Retries (v : Resp) : Prop :=
  ∃ s, v = .error s ∧ (StartsWith s (ascii "MOVED") ∨ StartsWith s (ascii "ASK") ∨ StartsWith s (ascii "CLUSTERDOWN"))

def IsError (v : Resp) : Prop := ∃ s, v = .error s

/-- The response is what the value itself says. -/
def Classified (v : Resp) (rsp : Response) : Prop :=
  (rsp = .retryMovedAsk ↔ v.Retries) ∧ ∀ b e, rsp = .normal b e → (e = true ↔ v.IsError)

mutual

/-- The texts of the errors in a value, at any depth. -/
def errors : Resp → List Bytes
  | int _ => []
  | simple _ => []
  | error s => [s]
  | bulk _ => []
  | nilBulk => []
  | nilArray => []
  | array l => errorsAll l

def errorsAll : List Resp → List Bytes
  | [] => []
  | v :: l => errors v ++ errorsAll l

end

/-- An error has a text, and the last error inside of any other value has none. -/
def Plain (v : Resp) : Prop :=
  match v with
  | error s => s ≠ []
  | v => v.errors.getLastD [] = []

theorem lastErrorOf_append (e : Bytes) (ts us : List RawToken) :
    lastErrorOf e (ts ++ us) = lastErrorOf (lastErrorOf e ts) us :=
  List.foldl_append

mutual

theorem lastErrorOf_tokens : ∀ (v : Resp) (e : Bytes), lastErrorOf e v.tokens = v.errors.getLastD e
  | int _, _ => by rw [tokens, errors]; rfl
  | simple _, _ => by rw [tokens, errors]; rfl
  | error _, _ => by rw [tokens, errors]; rfl
  | bulk _, _ => by rw [tokens, errors]; rfl
  | nilBulk, _ => by rw [tokens, errors]; rfl
  | nilArray, _ => by rw [tokens, errors]; rfl
  | array l, e => by
      rw [tokens, errors]
      exact lastErrorOf_tokensAll l e

theorem lastErrorOf_tokensAll : ∀ (l : List Resp) (e : Bytes),
    lastErrorOf e (tokensAll l) = (errorsAll l).getLastD e
  | [], _ => by rw [tokensAll, errorsAll]; rfl
  | v :: l, e => by
      rw [tokensAll, errorsAll, lastErrorOf_append, lastErrorOf_tokens v, lastErrorOf_tokensAll l]
      rw [List.getLastD_eq_getLast?, List.getLastD_eq_getLast?, List.getLastD_eq_getLast?, List.getLast?_append]
      cases (errorsAll l).getLast? <;> rfl

end

theorem retryError_iff (s : Bytes) : retryError s = true ↔
    StartsWith s (ascii "MOVED") ∨ StartsWith s (ascii "ASK") ∨ StartsWith s (ascii "CLUSTERDOWN") := by
  rw [retryError, Bool.or_eq_true, Bool.or_eq_true, stristartswith_iff, stristartswith_iff, stristartswith_iff, or_assoc]

/-- The response to a value that is not an error, by the last error in it. -/
theorem classified_of_not_error {v : Resp} (hv : ¬ v.IsError) (raw e : Bytes) :
    v.Classified (responseOf raw e) ↔ e = [] := by
  have hretry : ¬ v.Retries := fun ⟨s, hs, _⟩ => hv ⟨s, hs⟩
  constructor
  · rintro ⟨hr, hn⟩
    by_contra hne
    have hempty : (!e.isEmpty) = true := by simpa using hne
    unfold responseOf at hr hn
    rw [hempty, Bool.true_and] at hr hn
    cases he : retryError e with
    | true =>
        rw [he, if_pos rfl] at hr
        exact hretry (hr.mp rfl)
    | false =>
        rw [he, if_neg Bool.false_ne_true] at hn
        exact hv ((hn raw true rfl).mp rfl)
  · rintro rfl
    refine ⟨iff_of_false nofun hretry, fun b e he => ?_⟩
    cases he
    exact iff_of_false Bool.false_ne_true hv

theorem classified_error (s raw : Bytes) : (Resp.error s).Classified (responseOf raw s) ↔ s ≠ [] := by
  have herr : (Resp.error s).IsError := ⟨s, rfl⟩
  have hretries : (Resp.error s).Retries ↔ retryError s = true := by
    rw [retryError_iff]
    refine ⟨?_, fun h => ⟨s, rfl, h⟩⟩
    rintro ⟨t, ht, h⟩
    cases ht
    exact h
  constructor
  · rintro ⟨-, hn⟩ rfl
    exact Bool.false_ne_true ((hn raw false rfl).mpr herr)
  · intro hne
    have hempty : (!s.isEmpty) = true := by simpa using hne
    rw [Classified, hretries, responseOf, hempty, Bool.true_and]
    cases hs : retryError s with
    | true =>
        refine ⟨iff_of_true rfl rfl, fun b e he => ?_⟩
        cases he
    | false =>
        refine ⟨iff_of_false (fun he => ?_) Bool.false_ne_true, fun b e he => ?_⟩
        · cases he
        cases he
        exact iff_of_true rfl herr

theorem classified_iff (v : Resp) : v.Classified v.response ↔ v.Plain := by
  have hother : ¬ v.IsError → (v.Classified v.response ↔ v.errors.getLastD [] = []) := by
    intro hv
    rw [response, classified_of_not_error hv, lastErrorOf_tokens]
  cases v with
  | error s =>
      rw [response, lastErrorOf_tokens, errors]
      exact classified_error s _
  | _ =>
      refine hother ?_
      rintro ⟨s, hs⟩
      cases hs

end Resp

/-! ### Streams -/

/-- Each value of a stream gives one response, and it says what the value says exactly if the value
is plain.  The last value may have arrived in part, if the byte behind the buffer is no sign. -/
theorem splitServerResponse_classified_iff {vs ws : List Resp} {p : Bytes} {guard : Byte}
    (h : ∀ v ∈ vs ++ ws, v.WellFormed) (hp : Incomplete Resp.encode ws p) (hg : p = [] ∨ guard ≠ chr '-') :
    ∃ rsps, splitServerResponse (stream Resp.encode vs ++ p) guard = .split p rsps ∧
      List.Forall₂ (fun v rsp => v.Classified rsp ↔ v.Plain) vs rsps := by
  refine ⟨vs.map Resp.response, splitServerResponse_whole h hp ?_, ?_⟩
  · rcases hg with rfl | hg
    · rw [List.append_nil]
      have hlex := Resp.lexes_stream [] fun v hv => h v (List.mem_append_left ws hv)
      rw [List.append_nil] at hlex
      exact hlex.lengthsOk
    · exact Resp.lengthsOk_stream h hp (Or.inl hg)
  · rw [List.forall₂_map_right_iff]
    exact List.forall₂_same.mpr fun v _ => v.classified_iff

/-- An error, an array, and a redirection of which the first bytes have arrived. -/
theorem splitServerResponse_classified_iff_plain :
    (∃ rsps, splitServerResponse (ascii "-ERR\r\n*1\r\n:1\r\n-MO") 0 = .split (ascii "-MO") rsps ∧
      List.Forall₂ (fun (v : Resp) rsp => v.Classified rsp ↔ v.Plain)
        [.error (ascii "ERR"), .array [.int 1]] rsps) ∧
    (Resp.error (ascii "ERR")).Plain ∧ (Resp.array [.int 1]).Plain := by
  have h := @splitServerResponse_classified_iff [.error (ascii "ERR"), .array [.int 1]]
    [.error (ascii "MOVED 1 h:1")] (ascii "-MO") 0
    (by simp [Resp.WellFormed, Resp.AllWellFormed]; decide) ⟨by decide +kernel, by decide +kernel⟩
    (Or.inr (by decide))
  refine ⟨?_, by simp [Resp.Plain]; decide, by simp [Resp.Plain, Resp.errors, Resp.errorsAll]⟩
  rw [show stream Resp.encode [.error (ascii "ERR"), .array [.int 1]] ++ ascii "-MO" =
    ascii "-ERR\r\n*1\r\n:1\r\n-MO" by decide +kernel] at h
  exact h

/-- A redirection inside of an array makes the proxy repeat the whole command, and an error
without a text is taken for success. -/
theorem splitServerResponse_misclassified :
    (splitServerResponse (ascii "*1\r\n-MOVED 1 h:1\r\n") 0 = .split [] [.retryMovedAsk] ∧
      ¬ (Resp.array [.error (ascii "MOVED 1 h:1")]).Classified .retryMovedAsk) ∧
    splitServerResponse (ascii "-\r\n") 0 = .split [] [.normal (ascii "-\r\n") false] ∧
      ¬ (Resp.error []).Classified (.normal (ascii "-\r\n") false) := by
  refine ⟨⟨by decide +kernel, fun h => ?_⟩, by decide +kernel, fun h => ?_⟩
  · obtain ⟨s, hs, -⟩ := h.1.mp rfl
    cases hs
  · exact Bool.false_ne_true ((h.2 _ _ rfl).mpr ⟨_, rfl⟩)

end Cerberus
