/-! Steps that may fail, one after another. -/

namespace CodeAtlas

variable {ε ε' α β : Type}

theorem bind_eq_ok_iff {x : Except ε α} {f : α → Except ε β} {b : β} :
    x >>= f = .ok b ↔ ∃ a, x = .ok a ∧ f a = .ok b := by
  cases x with
  | error e => simp [bind, Except.bind]
  | ok a => simp [bind, Except.bind]

theorem bind_eq_error_iff {x : Except ε α} {f : α → Except ε β} {e : ε} :
    x >>= f = .error e ↔ x = .error e ∨ ∃ a, x = .ok a ∧ f a = .error e := by
  cases x with
  | error e => simp [bind, Except.bind]
  | ok a => simp [bind, Except.bind]

theorem mapError_eq_ok_iff {f : ε → ε'} {x : Except ε α} {a : α} :
    x.mapError f = .ok a ↔ x = .ok a := by
  cases x with
  | error e => exact ⟨nofun, nofun⟩
  | ok b =>
    change (.ok b : Except ε' α) = .ok a ↔ _
    rw [Except.ok.injEq, Except.ok.injEq]

theorem bind_mapError {x : Except ε α} {f : ε → ε'} {g : α → Except ε β} {g' : α → Except ε' β}
    (h : ∀ a, g' a = (g a).mapError f) : x.mapError f >>= g' = (x >>= g).mapError f := by
  cases x with
  | error e => rfl
  | ok a => exact h a

theorem mapError_eq_self {x : Except ε α} {f : ε → ε} (h : ∀ e, x = .error e → f e = e) :
    x.mapError f = x := by
  cases x with
  | error e => exact congrArg Except.error (h e rfl)
  | ok a => rfl

theorem toOption_eq_some_iff {x : Except ε α} {a : α} : x.toOption = some a ↔ x = .ok a := by
  cases x with
  | error e => simp [Except.toOption]
  | ok b => simp [Except.toOption]

end CodeAtlas
