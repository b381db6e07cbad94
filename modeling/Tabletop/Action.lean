import Tabletop.Failure

set_option autoImplicit false

namespace Tabletop

structure Action (σ α : Type) where
  run : σ → Except Failure α × σ

namespace Action

variable {σ τ α β : Type}

def done (a : α) : Action σ α :=
  ⟨fun s => (.ok a, s)⟩

-- what was changed before a failure stays changed
def andThen (x : Action σ α) (f : α → Action σ β) : Action σ β :=
  ⟨fun s =>
    match x.run s with
    | (.ok a, t) => (f a).run t
    | (.error e, t) => (.error e, t)⟩

instance : Monad (Action σ) where
  pure := done
  bind := andThen

def fail (f : Failure) : Action σ α :=
  ⟨fun s => (.error f, s)⟩

def breakdown (c : Breakdown) : Action σ α :=
  fail (.breakdown c)

def state : Action σ σ :=
  ⟨fun s => (.ok s, s)⟩

def change (f : σ → σ) : Action σ Unit :=
  ⟨fun s => (.ok (), f s)⟩

def ofResult : Except Failure α → Action σ α
  | .ok a => done a
  | .error f => fail f

def ofExcept (x : Except Breakdown α) : Action σ α :=
  ofResult (Failure.ofExcept x)

def ofChecked (x : Checked α) : Action σ α :=
  ofResult (Failure.ofChecked x)

-- the outcome as a value, so that work can go on after a failure
def outcome (x : Action σ α) : Action σ (Except Failure α) :=
  ⟨fun s => ((.ok (x.run s).1), (x.run s).2)⟩

-- work on a part of the state
def part (get : σ → τ) (set : τ → σ → σ) (x : Action τ α) : Action σ α :=
  ⟨fun s => ((x.run (get s)).1, set (x.run (get s)).2 s)⟩

@[simp] theorem run_pure (a : α) (s : σ) : (pure a : Action σ α).run s = (.ok a, s) := rfl

@[simp] theorem run_fail (f : Failure) (s : σ) :
    (fail f : Action σ α).run s = (.error f, s) := rfl

theorem run_bind (x : Action σ α) (f : α → Action σ β) (s : σ) :
    (x >>= f).run s =
      match x.run s with
      | (.ok a, t) => (f a).run t
      | (.error e, t) => (.error e, t) := rfl

@[simp] theorem run_state (s : σ) : (state : Action σ σ).run s = (.ok s, s) := rfl

@[simp] theorem run_change (f : σ → σ) (s : σ) : (change f).run s = (.ok (), f s) := rfl

end Action

end Tabletop
