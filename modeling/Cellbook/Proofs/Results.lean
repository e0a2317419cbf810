/-!
# Results

What is said of a result, which may be an error: of one that it ends as it should (`EndsIn`), and of two that they
agree (`Agree`). Both go through what is done with a result, so they are shown of a long computation by going along
its steps.
-/

namespace Cellbook

/-- **An evaluation ends as it should**: its result has the property `P`, or its error the property `F`. -/
inductive EndsIn {ε α : Type} (F : ε → Prop) (P : α → Prop) : Except ε α → Prop
  | ok {a : α} : P a → EndsIn F P (.ok a)
  | error {e : ε} : F e → EndsIn F P (.error e)

namespace EndsIn

variable {ε α β : Type} {F : ε → Prop} {P P' : α → Prop} {Q : β → Prop} {x : Except ε α}

theorem bind {f : α → Except ε β} (h : EndsIn F P x) (hf : ∀ a, P a → EndsIn F Q (f a)) :
    EndsIn F Q (x >>= f) := by
  cases h with
  | ok ha => exact hf _ ha
  | error he => exact .error he

theorem mono (h : EndsIn F P x) (hP : ∀ a, P a → P' a) : EndsIn F P' x := by
  cases h with
  | ok ha => exact .ok (hP _ ha)
  | error he => exact .error he

theorem of_eq_ok {a : α} (h : EndsIn F P x) (ha : x = .ok a) : P a := by
  subst ha
  cases h with
  | ok h => exact h

theorem of_eq_error {e : ε} (h : EndsIn F P x) (he : x = .error e) : F e := by
  subst he
  cases h with
  | error h => exact h

end EndsIn

/-- Two results agree: the same error, or related values. -/
inductive Agree {ε α β : Type} (R : α → β → Prop) : Except ε α → Except ε β → Prop
  | ok {a : α} {b : β} : R a b → Agree R (.ok a) (.ok b)
  | error (e : ε) : Agree R (.error e) (.error e)

theorem Agree.bind {ε α β γ δ : Type} {R : α → β → Prop} {S : γ → δ → Prop} {x : Except ε α}
    {y : Except ε β} {f : α → Except ε γ} {g : β → Except ε δ} (h : Agree R x y)
    (hf : ∀ a b, R a b → Agree S (f a) (g b)) : Agree S (x >>= f) (y >>= g) := by
  cases h with
  | ok hab => exact hf _ _ hab
  | error e => exact .error e

theorem Agree.mono {ε α β : Type} {R S : α → β → Prop} {x : Except ε α} {y : Except ε β} (h : Agree R x y)
    (hRS : ∀ a b, R a b → S a b) : Agree S x y := by
  cases h with
  | ok hab => exact .ok (hRS _ _ hab)
  | error e => exact .error e

theorem Agree.map_eq {ε α β γ : Type} {R : α → β → Prop} {x : Except ε α} {y : Except ε β} {f : α → γ} {f' : β → γ}
    (h : Agree R x y) (hf : ∀ a b, R a b → f' b = f a) : f' <$> y = f <$> x := by
  cases h with
  | ok hab => exact congrArg Except.ok (hf _ _ hab)
  | error e => rfl

theorem exists_of_map_eq_ok {ε α β : Type} {f : α → β} {x : Except ε α} {b : β} (h : f <$> x = .ok b) :
    ∃ a, x = .ok a ∧ f a = b := by
  cases x with
  | error e => cases h
  | ok a => exact ⟨a, rfl, Except.ok.inj h⟩

end Cellbook
