/-!
# Events and computations that log them

Two things are logged: an absent value that a policy drops, at level `trace`, and a request refused
because something it needs is missing, at level `debug`. `Logged α` is a value with the events of
its computation in the order in which they happened.
-/

namespace Multimap

/-- The end of a sequence at which a value is to go in. -/
inductive Position
  | back
  | front
  deriving DecidableEq, Repr, Inhabited

/-- The sequence with `v` at that end. -/
def Position.place {V : Type} (v : V) (vs : List V) : Position → List V
  | .back => vs ++ [v]
  | .front => v :: vs

inductive Level
  | trace
  | debug
  deriving DecidableEq, Repr

/-- What is logged. -/
inductive Event
  /-- An absent value was dropped at an end of a sequence of the given length. -/
  | dropped (position : Position) (length : Nat)
  /-- A map was to be made of a store, and there was no store. -/
  | storeMissing
  /-- Values were to be appended, and there was no collection of them. -/
  | valuesMissing
  deriving DecidableEq, Repr

namespace Event

def level : Event → Level
  | dropped .. => .trace
  | storeMissing | valuesMissing => .debug

def message : Event → String
  | dropped .back n => s!"ignoring absent value appended to a sequence of {n}"
  | dropped .front n => s!"ignoring absent value prepended to a sequence of {n}"
  | storeMissing => "rejecting multivalued map construction without a store"
  | valuesMissing => "rejecting bulk add without a collection of values"

end Event

/-- A value and the events of its computation, the first one first. -/
structure Logged (α : Type) where
  value : α
  events : List Event
  deriving DecidableEq, Repr

namespace Logged

variable {α β : Type}

/-- The computation that only logs `e`. -/
def log (e : Event) : Logged Unit := ⟨(), [e]⟩

instance : Monad Logged where
  pure a := ⟨a, []⟩
  bind x f := ⟨(f x.value).value, x.events ++ (f x.value).events⟩

@[ext] theorem ext {x y : Logged α} (hv : x.value = y.value) (he : x.events = y.events) :
    x = y := by
  cases x; cases y; simp_all

@[simp] theorem value_pure (a : α) : (pure a : Logged α).value = a := rfl

@[simp] theorem events_pure (a : α) : (pure a : Logged α).events = [] := rfl

@[simp] theorem value_bind (x : Logged α) (f : α → Logged β) :
    (x >>= f).value = (f x.value).value := rfl

@[simp] theorem events_bind (x : Logged α) (f : α → Logged β) :
    (x >>= f).events = x.events ++ (f x.value).events := rfl

theorem mk_bind (a : α) (events : List Event) (f : α → Logged β) :
    (⟨a, events⟩ : Logged α) >>= f = ⟨(f a).value, events ++ (f a).events⟩ := rfl

instance : LawfulMonad Logged := LawfulMonad.mk' Logged
  (fun x => by ext <;> simp [Functor.map])
  (fun a f => by ext <;> simp)
  (fun x f g => by ext <;> simp [List.append_assoc])

@[simp] theorem value_map (f : α → β) (x : Logged α) : (f <$> x).value = f x.value := rfl

@[simp] theorem events_map (f : α → β) (x : Logged α) : (f <$> x).events = x.events :=
  List.append_nil x.events

end Logged

end Multimap
