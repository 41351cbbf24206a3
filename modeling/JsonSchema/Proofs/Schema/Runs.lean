import JsonSchema.Proofs.Outcome
import JsonSchema.Schema.Compilation

/-!
# Steps of a compilation

A step runs from one state to another and leaves an outcome. Each way of putting steps together
is opened by one lemma.
-/

namespace JsonSchema.CompileM

variable {α β ε : Type} {c c' c'' : Compilation}

def result (step : CompileM α) (c : Compilation) : Except CompileFault α × Compilation :=
  step.run.run c

/-- A step that starts in `c` ends in `c'` with this outcome. -/
def Runs (step : CompileM α) (c : Compilation) (outcome : Except CompileFault α)
    (c' : Compilation) : Prop :=
  result step c = (outcome, c')

/-! ## Single steps -/

theorem runs_pure {a : α} {o : Except CompileFault α} :
    Runs (pure a) c o c' ↔ .ok a = o ∧ c = c' :=
  Prod.mk.injEq _ _ _ _ ▸ Iff.rfl

theorem runs_throw {e : CompileFault} {o : Except CompileFault α} :
    Runs (throw e) c o c' ↔ .error e = o ∧ c = c' :=
  Prod.mk.injEq _ _ _ _ ▸ Iff.rfl

theorem runs_modify {f : Compilation → Compilation} {o : Except CompileFault PUnit} :
    Runs (modify f) c o c' ↔ .ok ⟨⟩ = o ∧ f c = c' :=
  Prod.mk.injEq _ _ _ _ ▸ Iff.rfl

theorem runs_lift {fault : ε → CompileFault} {outcome : Except ε α} {o : Except CompileFault α} :
    Runs (lift fault outcome) c o c' ↔ outcome.mapError fault = o ∧ c = c' := by
  cases outcome with
  | ok a => exact runs_pure
  | error e => exact runs_throw

theorem runs_lift_ok {fault : ε → CompileFault} {outcome : Except ε α} {a : α} :
    Runs (lift fault outcome) c (.ok a) c' ↔ outcome = .ok a ∧ c = c' := by
  rw [runs_lift, Except.mapError_eq_ok]

theorem runs_lift_error {fault : ε → CompileFault} {outcome : Except ε α} {e : CompileFault} :
    Runs (lift fault outcome) c (.error e) c' ↔
      (∃ e', outcome = .error e' ∧ fault e' = e) ∧ c = c' := by
  rw [runs_lift, Except.mapError_eq_error]

/-! ## Chains -/

theorem result_bind (x : CompileM α) (f : α → CompileM β) (c : Compilation) :
    result (x >>= f) c =
      match result x c with
      | (.ok a, c') => result (f a) c'
      | (.error e, c') => (.error e, c') := by
  have h : result (x >>= f) c =
      (result x c >>= fun r => ((ExceptT.bindCont f r.1).run r.2) : Id _) := rfl
  rw [h]
  rcases result x c with ⟨_ | _, c'⟩ <;> rfl

theorem runs_bind_ok {x : CompileM α} {f : α → CompileM β} {b : β} :
    Runs (x >>= f) c (.ok b) c'' ↔ ∃ a c', Runs x c (.ok a) c' ∧ Runs (f a) c' (.ok b) c'' := by
  unfold Runs
  rw [result_bind]
  rcases result x c with ⟨_ | a, c'⟩ <;> simp [and_assoc]

theorem runs_bind_error {x : CompileM α} {f : α → CompileM β} {e : CompileFault} :
    Runs (x >>= f) c (.error e) c'' ↔
      Runs x c (.error e) c'' ∨ ∃ a c', Runs x c (.ok a) c' ∧ Runs (f a) c' (.error e) c'' := by
  unfold Runs
  rw [result_bind]
  rcases result x c with ⟨_ | a, c'⟩ <;> simp [and_assoc]

theorem runs_bind {x : CompileM α} {f : α → CompileM β} {o : Except CompileFault β} :
    Runs (x >>= f) c o c'' ↔ (∃ e, o = .error e ∧ Runs x c (.error e) c'') ∨
      ∃ a c', Runs x c (.ok a) c' ∧ Runs (f a) c' o c'' := by
  cases o with
  | ok b => simp [runs_bind_ok]
  | error e => simp [runs_bind_error]

/-! Reading and changing the state never fail. -/

theorem runs_get_bind {f : Compilation → CompileM β} {o : Except CompileFault β} :
    Runs (get >>= f) c o c' ↔ Runs (f c) c o c' :=
  Iff.rfl

theorem runs_modify_bind {g : Compilation → Compilation} {f : PUnit → CompileM β}
    {o : Except CompileFault β} : Runs (modify g >>= f) c o c' ↔ Runs (f ⟨⟩) (g c) o c' :=
  Iff.rfl

end JsonSchema.CompileM
