import Mathlib.Tactic

/-!
# Programs over a state that may be undefined

A program is a computation `σ → Option (α × σ)`.  `Generated` collects the
programs composed of given steps; what every step does to the state, a whole
program does.  `Ensures` is the partial correctness of a program with an error
flag that is never taken back: results only count where the flag is still
clear.
-/

namespace RtThread.StateProgram

variable {σ α β : Type} {x : StateT σ Option α} {f : α → StateT σ Option β}
  {s s' : σ} {a : α} {b : β}

theorem bind_eq_some :
    (x >>= f) s = some (b, s') ↔ ∃ a s₁, x s = some (a, s₁) ∧ f a s₁ = some (b, s') := by
  constructor
  · intro h
    obtain ⟨⟨a, s₁⟩, hx, hf⟩ := Option.bind_eq_some_iff.mp h
    exact ⟨a, s₁, hx, hf⟩
  · rintro ⟨a, s₁, hx, hf⟩
    exact Option.bind_eq_some_iff.mpr ⟨(a, s₁), hx, hf⟩

theorem pure_eq_some {a' : α} :
    (pure a : StateT σ Option α) s = some (a', s') ↔ a = a' ∧ s = s' := by
  change some (a, s) = some (a', s') ↔ _
  rw [Option.some.injEq, Prod.mk.injEq]

/-- The programs built from `steps` alone. -/
inductive Generated (steps : ∀ {α : Type}, StateT σ Option α → Prop) :
    ∀ {α : Type}, StateT σ Option α → Prop
  | step {α : Type} {x : StateT σ Option α} : steps x → Generated steps x
  | pure {α : Type} (a : α) : Generated steps (pure a)
  | failure {α : Type} : Generated steps (failure : StateT σ Option α)
  | bind {α β : Type} {x : StateT σ Option α} {f : α → StateT σ Option β} :
      Generated steps x → (∀ a, Generated steps (f a)) → Generated steps (x >>= f)

/-- A relation which the steps keep is kept by every program built from them. -/
theorem Generated.relates {steps : ∀ {α : Type}, StateT σ Option α → Prop} {r : σ → σ → Prop}
    (hrefl : ∀ s, r s s) (htrans : ∀ {s₁ s₂ s₃}, r s₁ s₂ → r s₂ s₃ → r s₁ s₃)
    (hstep : ∀ {α : Type} {x : StateT σ Option α} {s a s'}, steps x → x s = some (a, s') → r s s')
    (hx : Generated steps x) (hrun : x s = some (a, s')) : r s s' := by
  induction hx generalizing s s' with
  | step h => exact hstep h hrun
  | pure a =>
    obtain ⟨-, rfl⟩ := pure_eq_some.mp hrun
    exact hrefl s
  | failure => cases hrun
  | bind _ _ ihx ihf =>
    obtain ⟨a, s₁, hx, hf⟩ := bind_eq_some.mp hrun
    exact htrans (ihx hx) (ihf a hf)

/-- A run that ends without the error began without it, and satisfies `post`. -/
def Ensures (ok : σ → Prop) (post : σ → α → σ → Prop) (x : StateT σ Option α) : Prop :=
  ∀ s a s', x s = some (a, s') → ok s' → ok s ∧ post s a s'

variable {ok : σ → Prop} {post post₁ : σ → α → σ → Prop} {post' : σ → β → σ → Prop}

theorem Ensures.bind (hx : Ensures ok post x)
    (hf : ∀ a, Ensures ok (fun s₁ b s' => ∀ s, post s a s₁ → post' s b s') (f a)) :
    Ensures ok post' (x >>= f) := by
  intro s b s' hrun hok
  obtain ⟨a, s₁, hrunx, hrunf⟩ := bind_eq_some.mp hrun
  obtain ⟨hok₁, hpost'⟩ := hf a s₁ b s' hrunf hok
  obtain ⟨hok₀, hpost⟩ := hx s a s₁ hrunx hok₁
  exact ⟨hok₀, hpost' s hpost⟩

theorem Ensures.pure (hpost : ∀ s, post s a s) : Ensures ok post (Pure.pure a) := by
  intro s b s' hrun hok
  obtain ⟨rfl, rfl⟩ := pure_eq_some.mp hrun
  exact ⟨hok, hpost s⟩

theorem Ensures.failure : Ensures ok post (failure : StateT σ Option α) := by
  intro s a s' hrun
  cases hrun

theorem Ensures.weaken (hx : Ensures ok post₁ x) (hpost : ∀ s a s', post₁ s a s' → post s a s') :
    Ensures ok post x :=
  fun s a s' hrun hok => (hx s a s' hrun hok).imp_right (hpost s a s')

end RtThread.StateProgram
