import StackAsm.Proofs.Run

/-!
# StackAsm.Proofs.Agreement

Two runs side by side.

`Agree` compares the ends of two computations that may fail: either both give values and these are
related, or both fail and the errors are. It is kept by going on in a related way (`Agree.bind`),
and if the scanners of two runs stay related turn by turn, the runs end alike
(`Scanner.Runs.agree`).
-/

namespace StackAsm

/-- Two computations end alike: in related values, or in related errors. -/
inductive Agree {ε ε' α β : Type} (E : ε → ε' → Prop) (R : α → β → Prop) :
    Except ε α → Except ε' β → Prop
  | ok {a : α} {b : β} : R a b → Agree E R (.ok a) (.ok b)
  | error {e : ε} {e' : ε'} : E e e' → Agree E R (.error e) (.error e')

namespace Agree

variable {ε ε' α β γ δ : Type} {E : ε → ε' → Prop} {R : α → β → Prop} {S : γ → δ → Prop}
  {x : Except ε α} {y : Except ε' β}

theorem bind (h : Agree E R x y) {f : α → Except ε γ} {g : β → Except ε' δ}
    (hf : ∀ a b, R a b → Agree E S (f a) (g b)) : Agree E S (x.bind f) (y.bind g) := by
  cases h with
  | ok hR => exact hf _ _ hR
  | error hE => exact .error hE

theorem map (h : Agree E R x y) {f : α → γ} {g : β → δ} (hf : ∀ a b, R a b → S (f a) (g b)) :
    Agree E S (x.map f) (y.map g) := by
  cases h with
  | ok hR => exact .ok (hf _ _ hR)
  | error hE => exact .error hE

end Agree

namespace Scanner

variable {load load' : Loader} {opts opts' : Options} {E : AssemblyError → AssemblyError → Prop}
  {R : Scanner → Scanner → Prop} {S : Scan → Scan → Prop}

/-- If related scanners are done together with related scans, and each turn of the one goes with a
turn of the other that leads to related scanners, then the runs end alike. -/
theorem Runs.agree
    (hdone : ∀ s s', R s s' → s.stream.next? = none → s'.stream.next? = none ∧ S s.scan s'.scan)
    (hturn : ∀ s s' line r, R s s' → Turn load opts s line r →
      ∃ line' r', Turn load' opts' s' line' r' ∧ Agree E R r r')
    {s s' : Scanner} {read : List (Located String)} {r : Except AssemblyError Scan}
    (h : Runs load opts s read r) (hs : R s s') :
    ∃ read' r', Runs load' opts' s' read' r' ∧ Agree E S r r' := by
  induction h generalizing s' with
  | done hnext =>
    obtain ⟨hnext', hscan⟩ := hdone _ _ hs hnext
    exact ⟨[], _, .done hnext', .ok hscan⟩
  | refused turn =>
    obtain ⟨line', r', turn', hagree⟩ := hturn _ _ _ _ hs turn
    cases hagree with
    | error hE => exact ⟨[line'], _, .refused turn', .error hE⟩
  | next turn _ ih =>
    obtain ⟨line', r', turn', hagree⟩ := hturn _ _ _ _ hs turn
    cases hagree with
    | ok hR =>
      obtain ⟨read', r', hruns', hr⟩ := ih hR
      exact ⟨line' :: read', r', .next turn' hruns', hr⟩

/-- So the first passes over two lists of lines end alike. -/
theorem agree_scanLines
    (hdone : ∀ s s', R s s' → s.stream.next? = none → s'.stream.next? = none ∧ S s.scan s'.scan)
    (hturn : ∀ s s' line r, R s s' → Turn load opts s line r →
      ∃ line' r', Turn load' opts' s' line' r' ∧ Agree E R r r')
    {lines lines' : List (Located String)} (h : R (ofLines lines) (ofLines lines')) :
    Agree E S (scanLines load opts lines).result (scanLines load' opts' lines').result := by
  obtain ⟨read, hruns⟩ := exists_runs_scanLines load opts lines
  obtain ⟨read', r', hruns', hagree⟩ := hruns.agree hdone hturn h
  rw [hruns'.result_scanLines]
  exact hagree

end Scanner

end StackAsm
