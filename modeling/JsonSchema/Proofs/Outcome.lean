/-!
# Opening outcomes

What a chain of steps that may fail comes to, one step at a time.
-/

namespace JsonSchema

variable {ε ε' α β : Type}

theorem Except.ok_bind {a : α} {f : α → Except ε β} : (Except.ok a >>= f) = f a := rfl

theorem Except.bind_eq_ok {x : Except ε α} {f : α → Except ε β} {b : β} :
    (x >>= f) = .ok b ↔ ∃ a, x = .ok a ∧ f a = .ok b := by
  cases x <;> simp [bind, Except.bind]

theorem Except.bind_eq_error {x : Except ε α} {f : α → Except ε β} {e : ε} :
    (x >>= f) = .error e ↔ x = .error e ∨ ∃ a, x = .ok a ∧ f a = .error e := by
  cases x <;> simp [bind, Except.bind]

theorem Except.map_eq_ok {x : Except ε α} {f : α → β} {b : β} :
    x.map f = .ok b ↔ ∃ a, x = .ok a ∧ f a = b := by
  cases x <;> simp [Except.map]

theorem Except.map_eq_error {x : Except ε α} {f : α → β} {e : ε} :
    x.map f = .error e ↔ x = .error e := by
  cases x <;> simp [Except.map]

theorem Except.pure_eq_ok {a b : α} : (pure a : Except ε α) = .ok b ↔ a = b := by
  simp [pure, Except.pure]

theorem Except.mapError_ok {f : ε → ε'} {a : α} : (.ok a : Except ε α).mapError f = .ok a := rfl

theorem Except.mapError_error {f : ε → ε'} {e : ε} :
    (.error e : Except ε α).mapError f = .error (f e) := rfl

theorem Except.mapError_eq_ok {x : Except ε α} {f : ε → ε'} {a : α} :
    x.mapError f = .ok a ↔ x = .ok a := by
  cases x <;> simp [Except.mapError_ok, Except.mapError_error]

theorem Except.mapError_eq_error {x : Except ε α} {f : ε → ε'} {e : ε'} :
    x.mapError f = .error e ↔ ∃ e', x = .error e' ∧ f e' = e := by
  cases x <;> simp [Except.mapError_ok, Except.mapError_error]

theorem Except.toOption_eq_some {x : Except ε α} {a : α} : x.toOption = some a ↔ x = .ok a := by
  cases x <;> simp [Except.toOption]

theorem Except.mapM_eq_error {o : Option α} {f : α → Except ε β} {e : ε} :
    o.mapM f = .error e ↔ ∃ a, o = some a ∧ f a = .error e := by
  cases o with
  | none => simp [pure, Except.pure]
  | some a => cases h : f a <;> simp [h, Functor.map, Except.map]

/-! ## Two outcomes -/

/-- The first outcome is the error `e`, or what the second one is. -/
def Except.UpTo (e : ε) (x y : Except ε α) : Prop := x = .error e ∨ x = y

theorem Except.UpTo.refl (e : ε) (x : Except ε α) : Except.UpTo e x x := .inr rfl

theorem Except.UpTo.bind {e : ε} {x y : Except ε α} {f g : α → Except ε β}
    (h : Except.UpTo e x y) (hnext : ∀ a, Except.UpTo e (f a) (g a)) :
    Except.UpTo e (x >>= f) (y >>= g) := by
  rcases h with rfl | rfl
  · exact .inl rfl
  · cases x with
    | ok a => exact hnext a
    | error e' => exact .inr rfl

theorem Except.UpTo.map {e : ε} {x y : Except ε α} (h : Except.UpTo e x y) (f : α → β) :
    Except.UpTo e (x.map f) (y.map f) := by
  rcases h with rfl | rfl
  · exact .inl rfl
  · exact .inr rfl

/-! ## Good results -/

/-- The result is good, or else the error is fair. -/
inductive Except.Ends (good : α → Prop) (fair : ε → Prop) : Except ε α → Prop
  | ok {a : α} (h : good a) : Except.Ends good fair (.ok a)
  | error {e : ε} (h : fair e) : Except.Ends good fair (.error e)

section

variable {good : α → Prop} {good' : β → Prop} {fair : ε → Prop} {x : Except ε α}

theorem Except.Ends.of_ok {a : α} : Except.Ends good fair (.ok a) → good a
  | .ok h => h

theorem Except.Ends.of_error {e : ε} : Except.Ends good fair (.error e) → fair e
  | .error h => h

theorem Except.Ends.bind {f : α → Except ε β} (h : Except.Ends good fair x)
    (hf : ∀ a, good a → Except.Ends good' fair (f a)) : Except.Ends good' fair (x >>= f) := by
  cases h with
  | ok h => exact hf _ h
  | error h => exact .error h

theorem Except.Ends.ite_of {p : Prop} [Decidable p] {y : Except ε α}
    (h : p → Except.Ends good fair x) (h' : ¬ p → Except.Ends good fair y) :
    Except.Ends good fair (if p then x else y) := by
  split
  · exact h ‹_›
  · exact h' ‹_›

theorem Except.Ends.ite {p : Prop} [Decidable p] {y : Except ε α} (h : Except.Ends good fair x)
    (h' : Except.Ends good fair y) : Except.Ends good fair (if p then x else y) :=
  .ite_of (fun _ => h) fun _ => h'

theorem Except.Ends.map {f : α → β} (h : Except.Ends good fair x)
    (hf : ∀ a, good a → good' (f a)) : Except.Ends good' fair (x.map f) := by
  cases h with
  | ok h => exact .ok (hf _ h)
  | error h => exact .error h

theorem Except.Ends.mapError {f : ε → ε'} {fair' : ε' → Prop} (h : Except.Ends good fair x)
    (hf : ∀ e, fair e → fair' (f e)) : Except.Ends good fair' (x.mapError f) := by
  cases h with
  | ok h => exact .ok h
  | error h => exact .error (hf _ h)

theorem Except.Ends.mapM {f : α → Except ε β} {list : List α}
    (h : ∀ a ∈ list, Except.Ends (fun _ => True) fair (f a)) :
    Except.Ends (fun bs => bs.length = list.length) fair (list.mapM f) := by
  induction list with
  | nil => exact .ok rfl
  | cons a rest ih =>
    rw [List.mapM_cons]
    refine (h a List.mem_cons_self).bind fun b _ => ?_
    refine (ih fun a ha => h a (List.mem_cons_of_mem _ ha)).bind fun bs hlength => ?_
    exact .ok (congrArg (· + 1) hlength)

/-- What every step keeps holds of the result of a fold. -/
theorem Except.Ends.foldlM {f : α → β → Except ε α} {list : List β} {a : α} (h : good a)
    (hf : ∀ a, good a → ∀ b ∈ list, Except.Ends good fair (f a b)) :
    Except.Ends good fair (list.foldlM f a) := by
  induction list generalizing a with
  | nil => exact .ok h
  | cons b rest ih =>
    rw [List.foldlM_cons]
    refine (hf a h b List.mem_cons_self).bind fun a ha => ?_
    exact ih ha fun a ha b hb => hf a ha b (List.mem_cons_of_mem _ hb)

theorem Except.Ends.imp {good' : α → Prop} {fair' : ε → Prop} (h : Except.Ends good fair x)
    (hgood : ∀ a, good a → good' a) (hfair : ∀ e, fair e → fair' e) :
    Except.Ends good' fair' x := by
  cases h with
  | ok h => exact .ok (hgood _ h)
  | error h => exact .error (hfair _ h)

theorem Except.Ends.mono {fair' : ε → Prop} (h : Except.Ends good fair x)
    (hfair : ∀ e, fair e → fair' e) : Except.Ends good fair' x := h.imp (fun _ h => h) hfair

end

end JsonSchema
