/-
  Proofs/Store/Call.lean --- calls made one after the other.

  WHAT THIS FILE IS FOR.  Calls of a store and requests to a ledger are functions
  of a state that may be refused.  A chain of them ends with the first that is
  refused, in the state that this one leaves.  Nothing here depends on the state.
-/
import RunLedger.Store.Basic

set_option autoImplicit false

namespace RunLedger

section

variable {ε s α β : Type} {x : ExceptT ε (StateM s) α} {f : α → ExceptT ε (StateM s) β}
  {state final : s}

theorem bind_apply (x : ExceptT ε (StateM s) α) (f : α → ExceptT ε (StateM s) β) (state : s) :
    (x >>= f) state =
      match x state with
      | (.ok a, next) => f a next
      | (.error error, next) => (.error error, next) := by
  show ExceptT.bindCont f (x state).1 (x state).2 = _
  rcases x state with ⟨_ | a, next⟩ <;> rfl

theorem bind_eq_ok_iff {b : β} :
    (x >>= f) state = (.ok b, final) ↔
      ∃ a next, x state = (.ok a, next) ∧ f a next = (.ok b, final) := by
  rw [bind_apply]
  rcases hrun : x state with ⟨error | a, next⟩
  · constructor
    · intro h
      cases (Prod.mk.inj h).1
    · rintro ⟨a, next', h, -⟩
      cases (Prod.mk.inj h).1
  · constructor
    · exact fun h => ⟨a, next, rfl, h⟩
    · rintro ⟨a', next', h, hrest⟩
      cases h
      exact hrest

theorem bind_eq_error_iff {error : ε} :
    (x >>= f) state = (.error error, final) ↔
      x state = (.error error, final) ∨
        ∃ a next, x state = (.ok a, next) ∧ f a next = (.error error, final) := by
  rw [bind_apply]
  rcases hrun : x state with ⟨error' | a, next⟩
  · constructor
    · intro h
      cases h
      exact .inl rfl
    · rintro (h | ⟨a, next', h, -⟩)
      · cases h
        rfl
      · cases (Prod.mk.inj h).1
  · constructor
    · exact fun h => .inr ⟨a, next, rfl, h⟩
    · rintro (h | ⟨a', next', h, hrest⟩)
      · cases (Prod.mk.inj h).1
      · cases h
        exact hrest

end

end RunLedger
