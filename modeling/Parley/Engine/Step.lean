import Parley.Engine.Drive

/-! One step of an engine, by task, and the times at which a waiting task may become ready. -/
namespace Parley.Engine

inductive Task where
  /-- Delivers a notification that is owed. -/
  | notify
  /-- A call looks for its answer. -/
  | call (id : CallId)
  | cancel
  | read
  | write
  | close
  deriving Repr, DecidableEq

def tasks (e : Engine) : List Task :=
  .notify :: e.calls.map (fun c => .call c.id) ++ [.cancel, .read, .write, .close]

def step (env : Env) (t : Task) (e : Engine) (d : Channel.Duplex) : Step :=
  match t with
  | .notify => e.stepNotify d
  | .call id => e.stepCall env.now id d
  | .cancel => e.stepCancel env d
  | .read => e.stepRead env d
  | .write => e.stepWrite env d
  | .close => e.stepClose env d

def Wait.dues : Wait → List Nat
  | .written => []
  | .response _ due => [due]

def WriteLoop.dues : WriteLoop → List Nat
  | .writing _ due _ _ _ | .flushing due _ => [due]
  | _ => []

def ReadLoop.dues : ReadLoop → List Nat
  | .reading _ due => due.toList
  | _ => []

def Control.dues : Control → List Nat
  | .closing _ due => [due]
  | _ => []

def Drive.dues (r : Drive) : List Nat := r.writing.dues ++ r.reading.dues ++ r.control.dues

/-- All deadlines that are running. -/
def dues (e : Engine) : List Nat :=
  e.calls.flatMap (·.wait.dues) ++ (e.drive.map Drive.dues).getD []

end Parley.Engine
