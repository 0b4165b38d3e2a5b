import SimplexTableau.Tableau

namespace SimplexTableau

/-!
# Events

What happens while a problem is solved is announced to whoever watches.

* `Event` — what can be announced, and `Event.level`, how much detail it belongs to;
* `Watched` — a result with the events announced on the way to it.

The values that an event carries are looked up only for someone who watches, so that a part that a
tableau lacks does no harm while nobody does.
-/

/-- How much detail an event belongs to. -/
inductive Level
  | info
  | debug
  | trace
deriving DecidableEq

/-- What can be announced while a problem is solved. -/
inductive Event (K : Type)
  /-- The problem was valid, and its tableau was built. -/
  | built (numVariables numConstraints : Nat)
  /-- A tableau is examined, after `step` pivots. -/
  | examined (step : Nat) (tableau : Tableau K)
  /-- A pivot was chosen; the objective has the value `z` before it. -/
  | selected (step : Nat) (column : String) (row : Nat) (z : K)
  /-- The run ended with the optimum `z`. -/
  | optimal (iterations : Nat) (z : K)
  /-- The run ended at a column without limit. -/
  | unbounded (iterations : Nat) (column : String)
  /-- The run was cut off. -/
  | limitReached (limit : Nat)

/-- The end of a run is told first, the pivots in more detail, the tableaus in full detail. -/
def Event.level {K : Type} : Event K → Level
  | .optimal _ _ | .unbounded _ _ | .limitReached _ => .info
  | .built _ _ | .selected _ _ _ _ => .debug
  | .examined _ _ => .trace

/-! ### Watching -/

/-- A result, or why there is none, with the events announced on the way to it. -/
structure Watched (K ε α : Type) where
  /-- The result, which does not depend on whether someone watches. -/
  result : Except ε α
  /-- The events in their order, for someone who watches. -/
  events : List (Except ShapeError (Event K))

namespace Watched

variable {K ε ε' α β : Type}

/-- Announces an event. -/
def tell (event : Except ShapeError (Event K)) : Watched K ε Unit := ⟨.ok (), [event]⟩

/-- A result that nothing is announced for. -/
def silent (result : Except ε α) : Watched K ε α := ⟨result, []⟩

instance : Monad (Watched K ε) where
  pure a := ⟨.ok a, []⟩
  bind x f :=
    match x.result with
    | .error e => ⟨.error e, x.events⟩
    | .ok a => ⟨(f a).result, x.events ++ (f a).events⟩

instance : MonadLift (Except ε) (Watched K ε) := ⟨silent⟩

/-- The same with the error in other terms. -/
def mapError (f : ε → ε') (x : Watched K ε α) : Watched K ε' α := ⟨x.result.mapError f, x.events⟩

/-- What someone who watches has seen in the end. -/
def seen (x : Watched K ε α) : Except ShapeError (List (Event K)) := x.events.mapM id

@[simp] theorem result_silent (result : Except ε α) :
    (silent result : Watched K ε α).result = result := rfl

@[simp] theorem result_pure (a : α) : (pure a : Watched K ε α).result = .ok a := rfl

/-- An event comes before what follows it. -/
theorem tell_bind (event : Except ShapeError (Event K)) (f : Unit → Watched K ε β) :
    (tell event >>= f) = ⟨(f ()).result, event :: (f ()).events⟩ := rfl

/-- A part that succeeds without an event leaves no mark. -/
theorem liftM_ok_bind (a : α) (f : α → Watched K ε β) :
    ((liftM (Except.ok a : Except ε α) : Watched K ε α) >>= f) = f a := rfl

/-- The result of two parts does not depend on what they announce. -/
@[simp] theorem result_bind (x : Watched K ε α) (f : α → Watched K ε β) :
    (x >>= f).result = x.result >>= fun a => (f a).result := by
  show (match x.result with
    | .error e => (⟨.error e, x.events⟩ : Watched K ε β)
    | .ok a => ⟨(f a).result, x.events ++ (f a).events⟩).result = _
  cases x.result <;> rfl

end Watched

end SimplexTableau
