import Mathlib.Logic.Basic
import Mathlib.Data.Nat.Notation

/-! # Runs of a transition system

A system moves from state to state by `next`, one event at a time.  `Along` says something of
every step of a run and `Sometime` of one of them; `Reachable` collects the states that runs of
allowed steps lead to. -/

namespace Runs

variable {σ ε : Type*} (next : σ → ε → σ)

/-- `P` holds of every step of the run of `es` from `s`. -/
def Along (P : σ → ε → Prop) : σ → List ε → Prop
  | _, [] => True
  | s, e :: es => P s e ∧ Along P (next s e) es

/-- `P` holds of some step of the run of `es` from `s`. -/
def Sometime (P : σ → ε → Prop) : σ → List ε → Prop
  | _, [] => False
  | s, e :: es => P s e ∨ Sometime P (next s e) es

/-- The states that steps with `P` lead to. -/
inductive Reachable (P : σ → ε → Prop) (start : σ) : σ → Prop
  | refl : Reachable P start start
  | step {s : σ} {e : ε} : Reachable P start s → P s e → Reachable P start (next s e)

instance (P : σ → ε → Prop) [∀ s e, Decidable (P s e)] : ∀ (s : σ) (es : List ε), Decidable (Along next P s es)
  | _, [] => inferInstanceAs (Decidable True)
  | s, e :: es =>
      have := instDecidableAlong P (next s e) es
      inferInstanceAs (Decidable (P s e ∧ Along next P (next s e) es))

instance (P : σ → ε → Prop) [∀ s e, Decidable (P s e)] : ∀ (s : σ) (es : List ε), Decidable (Sometime next P s es)
  | _, [] => inferInstanceAs (Decidable False)
  | s, e :: es =>
      have := instDecidableSometime P (next s e) es
      inferInstanceAs (Decidable (P s e ∨ Sometime next P (next s e) es))

variable {next} {P Q : σ → ε → Prop} {I : σ → Prop}

theorem Along.imp (h : ∀ s e, P s e → Q s e) : ∀ (es : List ε) {s : σ}, Along next P s es → Along next Q s es
  | [], _, _ => trivial
  | _ :: es, _, hes => ⟨h _ _ hes.1, Along.imp h es hes.2⟩

/-- The states of a run are those that its beginnings lead to. -/
theorem Along.within {start : σ} : ∀ (es es₀ : List ε), Along next P (es₀.foldl next start) es →
    Along next (fun t e => P t e ∧ ∃ es₁, es₁ <+: es₀ ++ es ∧ next t e = es₁.foldl next start)
      (es₀.foldl next start) es
  | [], _, _ => trivial
  | e :: es, es₀, h => by
      have hnext : (es₀ ++ [e]).foldl next start = next (es₀.foldl next start) e := by
        rw [List.foldl_append]
        rfl
      have hlist : es₀ ++ e :: es = es₀ ++ [e] ++ es := List.append_cons es₀ e es
      refine ⟨⟨h.1, es₀ ++ [e], hlist ▸ List.prefix_append .., hnext.symm⟩, ?_⟩
      have hrest := Along.within es (es₀ ++ [e]) (hnext ▸ h.2)
      rw [hnext, ← hlist] at hrest
      exact hrest

theorem sometime_append : ∀ (es fs : List ε) {s : σ},
    Sometime next P s (es ++ fs) ↔ Sometime next P s es ∨ Sometime next P (es.foldl next s) fs
  | [], _, _ => (or_iff_right id).symm
  | _ :: es, fs, _ => (or_congr_right (sometime_append es fs)).trans or_assoc.symm

/-- What implies another property of a step where an invariant holds does so along a run. -/
theorem Sometime.imp {A : σ → ε → Prop} (h : ∀ s e, I s → A s e → P s e → Q s e)
    (hstep : ∀ s e, I s → A s e → I (next s e)) : ∀ (es : List ε) {s : σ}, I s → Along next A s es →
    Sometime next P s es → Sometime next Q s es
  | [], _, _, _, hes => hes
  | e :: es, _, hs, hA, hes =>
      Or.imp (h _ e hs hA.1) (Sometime.imp h hstep es (hstep _ e hs hA.1) hA.2) hes

theorem sometime_or : ∀ (es : List ε) {s : σ},
    Sometime next (fun s e => P s e ∨ Q s e) s es ↔ Sometime next P s es ∨ Sometime next Q s es
  | [], _ => (or_iff_left id).symm
  | _ :: es, _ => (or_congr_right (sometime_or es)).trans or_or_or_comm

theorem Sometime.exists_mem : ∀ (es : List ε) {s : σ}, Sometime next P s es → ∃ e ∈ es, ∃ s, P s e
  | e :: es, s, hes => by
      rcases hes with h | h
      · exact ⟨e, List.mem_cons_self, s, h⟩
      · obtain ⟨e', he', hs⟩ := Sometime.exists_mem es h
        exact ⟨e', List.mem_cons_of_mem _ he', hs⟩

/-- A run whose steps are all allowed leads to a reachable state. -/
theorem Reachable.run {start : σ} : ∀ (es : List ε) {s : σ}, Reachable next P start s → Along next P s es →
    Reachable next P start (es.foldl next s)
  | [], _, h, _ => h
  | _ :: es, _, h, hes => Reachable.run es (h.step hes.1) hes.2

theorem Reachable.mono {start s : σ} (h : Reachable next P start s) (hPQ : ∀ s e, P s e → Q s e) :
    Reachable next Q start s := by
  induction h with
  | refl => exact .refl
  | step _ he ih => exact ih.step (hPQ _ _ he)

/-- Two properties of steps that agree where an invariant holds agree along every run, if the
steps with the second one keep the invariant. -/
theorem along_iff (hiff : ∀ s e, I s → (P s e ↔ Q s e))
    (hstep : ∀ s e, I s → Q s e → I (next s e)) :
    ∀ (es : List ε) {s : σ}, I s → (Along next P s es ↔ Along next Q s es)
  | [], _, _ => Iff.rfl
  | e :: es, s, hs => by
      constructor
      · rintro ⟨hp, hes⟩
        have hq := (hiff s e hs).mp hp
        exact ⟨hq, (along_iff hiff hstep es (hstep s e hs hq)).mp hes⟩
      · rintro ⟨hq, hes⟩
        exact ⟨(hiff s e hs).mpr hq, (along_iff hiff hstep es (hstep s e hs hq)).mpr hes⟩

theorem Reachable.inv {start s : σ} (h : Reachable next P start s) (h0 : I start)
    (hstep : ∀ s e, I s → P s e → I (next s e)) : I s := by
  induction h with
  | refl => exact h0
  | step _ he ih => exact hstep _ _ ih he

/-- A system whose steps are seen as steps of another one, or not at all, is seen to run as that one
does. -/
theorem Reachable.mirror {τ η : Type*} {next' : τ → η → τ} {R : τ → η → Prop} {view : σ → τ}
    {seen : σ → ε → Option η} {start s : σ} (h : Reachable next P start s) (h0 : I start)
    (hstep : ∀ s e, I s → P s e → I (next s e))
    (hview : ∀ s e, I s → P s e → view (next s e) = (seen s e).elim (view s) (next' (view s)))
    (hseen : ∀ s e e', I s → P s e → seen s e = some e' → R (view s) e') :
    Reachable next' R (view start) (view s) := by
  induction h with
  | refl => exact .refl
  | @step s e hs he ih =>
      have hi : I s := hs.inv h0 hstep
      rw [hview s e hi he]
      cases heq : seen s e with
      | none => exact ih
      | some e' => exact ih.step (hseen s e e' hi he heq)

end Runs
