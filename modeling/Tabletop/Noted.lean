import Tabletop.Failure
import Tabletop.Notice

set_option autoImplicit false

namespace Tabletop

structure Noted (α : Type) where
  outcome : Except Failure (α × List Notice)

namespace Noted

variable {α β : Type}

def done (a : α) : Noted α :=
  ⟨.ok (a, [])⟩

def fail (f : Failure) : Noted α :=
  ⟨.error f⟩

-- the notices of work that fails are lost
def andThen (x : Noted α) (f : α → Noted β) : Noted β :=
  match x.outcome with
  | .error e => ⟨.error e⟩
  | .ok (a, notices) =>
    match (f a).outcome with
    | .error e => ⟨.error e⟩
    | .ok (b, more) => ⟨.ok (b, notices ++ more)⟩

instance : Monad Noted where
  pure := done
  bind := andThen

def note (n : Notice) : Noted Unit :=
  ⟨.ok ((), [n])⟩

def notes (ns : List Notice) : Noted Unit :=
  ⟨.ok ((), ns)⟩

def ofExcept : Except Breakdown α → Noted α
  | .ok a => done a
  | .error c => fail (.breakdown c)

def ofChecked (x : Checked α) : Noted α :=
  match Failure.ofChecked x with
  | .ok a => done a
  | .error f => fail f

def result (x : Noted α) : Except Failure α :=
  x.outcome.map (·.1)

end Noted

end Tabletop
