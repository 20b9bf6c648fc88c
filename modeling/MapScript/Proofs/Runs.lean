/-!
# Steps that may fail, on a state

A step leaves a state behind whether it fails or not.  What follows a step that fails is not run.
-/

namespace MapScript

variable {ε σ α β : Type} {x : ExceptT ε (StateM σ) α} {f : α → ExceptT ε (StateM σ) β} {s s' : σ}

theorem run_bind : (x >>= f).run s = ExceptT.bindCont f (x.run s).1 (x.run s).2 := rfl

theorem run_bind_ok {a : α} (h : x.run s = (.ok a, s')) : (x >>= f).run s = (f a).run s' := by
  rw [run_bind, h]
  rfl

theorem run_bind_error {e : ε} (h : x.run s = (.error e, s')) :
    (x >>= f).run s = (.error e, s') := by
  rw [run_bind, h]
  rfl

theorem run_bind_eq_ok {b : β} (h : (x >>= f).run s = (.ok b, s')) :
    ∃ a s1, x.run s = (.ok a, s1) ∧ (f a).run s1 = (.ok b, s') := by
  rcases hx : x.run s with ⟨e | a, s1⟩
  · rw [run_bind_error hx] at h
    cases h
  · exact ⟨a, s1, rfl, run_bind_ok hx ▸ h⟩

theorem run_bind_eq_error {e : ε} (h : (x >>= f).run s = (.error e, s')) :
    x.run s = (.error e, s') ∨ ∃ a s1, x.run s = (.ok a, s1) ∧ (f a).run s1 = (.error e, s') := by
  rcases hx : x.run s with ⟨e' | a, s1⟩
  · rw [run_bind_error hx] at h
    cases h
    exact .inl rfl
  · exact .inr ⟨a, s1, rfl, run_bind_ok hx ▸ h⟩

/-- A step that cannot fail. -/
theorem run_lift_bind {y : StateM σ α} {a : α} (h : y.run s = (a, s')) :
    (ExceptT.lift y >>= f).run s = (f a).run s' := by
  have hrun : (ExceptT.lift y >>= f).run s = (f (y.run s).1).run (y.run s).2 := rfl
  rw [hrun, h]

end MapScript
