import Routeplane.Lib.Files
import Routeplane.Lib.Run

/-!
# Registries persisted to a file

Both runtime registries, the custom providers and the console accounts, are changed the same way: a
call takes the write lock, plans the next snapshot from the live one, hands the bytes to a blocking
writer and waits for it, swaps the snapshot in and releases the lock. The writer truncates a temp
file, writes it and renames it over the registry file; every writer uses the same temp name.

The handlers run each call in a task of its own, so a caller that disconnects leaves the call
running. Only dropping the future of the call itself would not: it releases the lock and leaves the
writer behind (`Event.cancel`).

* `step`: one event of the tasks, their writers and the process.
* `start`: the process as it comes up.
-/

namespace Routeplane.Storage

/-- The two names in the directory. -/
inductive FileName
  | target
  | temp
  deriving DecidableEq, Repr

abbrev Bytes := List UInt8

abbrev Disk := Files FileName UInt8

/-- A registry: its calls, what each plans, and how a snapshot is written and read. -/
structure Registry (S F κ C B : Type) where
  /-- The entry a call is about. -/
  key : C → κ
  /-- The next snapshot and what to persist; none when the call is answered without a write. -/
  plan : C → S → Option (S × F)
  encode : F → Bytes
  /-- The snapshot of a start; none refuses it. -/
  load : B → Option Bytes → Option S

/-- The blocking writer of some bytes. -/
inductive Writer
  | opening (bytes : Bytes)
  /-- The temp file is open and the first `written` bytes are written. -/
  | writing (bytes : Bytes) (file written : ℕ)
  | finished (ok : Bool)
  deriving DecidableEq, Repr

/-- A call in its task. -/
inductive Task (S C : Type)
  | idle
  | waiting (call : C)
  /-- Holds the lock and waits for the writer. -/
  | saving (call : C) (next : S)
  /-- Whether a change was saved. -/
  | answered (saved : Bool)
  deriving DecidableEq

def Task.inProgress {S C : Type} : Task S C → Bool
  | waiting _ | saving _ _ => true
  | idle | answered _ => false

structure State (S C : Type) where
  disk : Disk
  /-- None when the last start was refused. -/
  live : Option S
  lock : Option ℕ := none
  tasks : ℕ → Task S C := fun _ => .idle
  writers : ℕ → Option Writer := fun _ => none

inductive Event (C B : Type)
  /-- A handler spawns the task of a call. -/
  | call (id : ℕ) (call : C)
  | lock (id : ℕ)
  | openTemp (id : ℕ)
  | write (id count : ℕ)
  | rename (id : ℕ)
  /-- An error of the writer, before its rename. -/
  | fail (id : ℕ)
  | resume (id : ℕ)
  /-- The handler's future is dropped; the task of the call goes on. -/
  | disconnect (id : ℕ)
  /-- The future of the call itself is dropped. -/
  | cancel (id : ℕ)
  | restart (boot : B)

def Event.isCancel {C B : Type} : Event C B → Bool
  | cancel _ => true
  | _ => false

section Steps

variable {S F κ C B : Type} (reg : Registry S F κ C B) (st : State S C) (id : ℕ)

namespace State

def setTask {S C : Type} (st : State S C) (id : ℕ) (task : Task S C) : State S C :=
  { st with tasks := Function.update st.tasks id task }

def setWriter {S C : Type} (st : State S C) (id : ℕ) (writer : Option Writer) : State S C :=
  { st with writers := Function.update st.writers id writer }

/-- A task with a fresh number. -/
def spawn {S C : Type} (st : State S C) (id : ℕ) (call : C) : State S C :=
  match st.tasks id, st.writers id with
  | .idle, none => st.setTask id (.waiting call)
  | _, _ => st

/-- Take the lock, plan, and hand the bytes to a writer. -/
def takeLock : State S C :=
  match st.tasks id, st.lock, st.live with
  | .waiting call, none, some live =>
    match reg.plan call live with
    | none => st.setTask id (.answered false)
    | some (next, file) =>
      { (st.setTask id (.saving call next)).setWriter id (some (.opening (reg.encode file))) with
        lock := some id }
  | _, _, _ => st

/-- `OpenOptions` with `create` and `truncate`, on the temp name. -/
def openTemp {S C : Type} (st : State S C) (id : ℕ) : State S C :=
  match st.writers id with
  | some (.opening bytes) =>
    let opened := st.disk.openTruncate .temp
    { st.setWriter id (some (.writing bytes opened.2 0)) with disk := opened.1 }
  | _ => st

/-- One `write` of `write_all`. -/
def write {S C : Type} (st : State S C) (id count : ℕ) : State S C :=
  match st.writers id with
  | some (.writing bytes file written) =>
    let chunk := (bytes.drop written).take count
    { st.setWriter id (some (.writing bytes file (written + chunk.length))) with
      disk := st.disk.write 0 file written chunk }
  | _ => st

/-- The rename, once everything is written; it fails when the temp name is gone. -/
def rename {S C : Type} (st : State S C) (id : ℕ) : State S C :=
  match st.writers id with
  | some (.writing bytes _ written) =>
    if written = bytes.length then
      match st.disk.rename .temp .target with
      | some disk => { st.setWriter id (some (.finished true)) with disk }
      | none => st.setWriter id (some (.finished false))
    else st
  | _ => st

def fail {S C : Type} (st : State S C) (id : ℕ) : State S C :=
  match st.writers id with
  | some (.opening _) | some (.writing ..) => st.setWriter id (some (.finished false))
  | _ => st

/-- The call goes on after its writer: swap on success, and release the lock. -/
def resume {S C : Type} (st : State S C) (id : ℕ) : State S C :=
  match st.tasks id, st.writers id with
  | .saving _ next, some (.finished true) =>
    { (st.setTask id (.answered true)).setWriter id none with lock := none, live := some next }
  | .saving _ _, some (.finished false) =>
    { (st.setTask id (.answered false)).setWriter id none with lock := none }
  | _, _ => st

/-- The lock guard is dropped with the future, the writer is not. -/
def cancel {S C : Type} (st : State S C) (id : ℕ) : State S C :=
  match st.tasks id with
  | .waiting _ => st.setTask id .idle
  | .saving _ _ => { st.setTask id .idle with lock := none }
  | _ => st

end State

def step (st : State S C) : Event C B → State S C
  | .call id call => st.spawn id call
  | .lock id => st.takeLock reg id
  | .openTemp id => st.openTemp id
  | .write id count => st.write id count
  | .rename id => st.rename id
  | .fail id => st.fail id
  | .resume id => st.resume id
  | .disconnect _ => st
  | .cancel id => st.cancel id
  | .restart boot => { disk := st.disk, live := reg.load boot (st.disk.read .target) }

end Steps

/-- The registry file, and a temp file that may be left over. -/
def diskOf (target temp : Option Bytes) : Disk where
  file
    | .target => target.map fun _ => 0
    | .temp => temp.map fun _ => 1
  contents file := if file = 0 then target.getD [] else temp.getD []
  next := 2

def start {S F κ C B : Type} (reg : Registry S F κ C B) (boot : B) (target temp : Option Bytes) :
    State S C where
  disk := diskOf target temp
  live := reg.load boot target

/-- The state a run from a start leads to. -/
def reached {S F κ C B : Type} (reg : Registry S F κ C B) (boot : B) (target temp : Option Bytes)
    (es : List (Event C B)) : State S C :=
  Run.run (step reg) (start reg boot target temp) es

end Routeplane.Storage
