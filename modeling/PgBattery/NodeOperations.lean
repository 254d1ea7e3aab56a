import PgBattery.TransitionSystem

/-! The requests that replace the binary, copy the data or rewrite the data directory of one node. Each runs
as the future of its handler, under locks that the future holds, and hands part of its work to threads
and processes that go on when a client disconnects and the future is dropped. -/
namespace PgBattery
namespace NodeOperations
open TransitionSystem List

inductive Lock
  | upgradeLock
  | backupLock
  | supervisor
  deriving DecidableEq

inductive Kind
  | selfUpgrade
  | createBackup
  | dumpRestore
  | fullRestore
  | apply
  | rejoin
  | confirm
  | rollback
  deriving DecidableEq

/-- What a handler does next. -/
inductive Action
  -- refused if another holds it
  | tryLock (l : Lock)
  -- waits
  | lock (l : Lock)
  -- an await of the future's own: it ends with the future
  | async
  -- awaited, but on a thread or in a process of its own
  | detached
  -- without an await
  | sync
  deriving DecidableEq

def Action.acquires : Action → Option Lock
  | .tryLock l | .lock l => some l
  | _ => none

def Action.works : Action → Bool
  | .async | .detached | .sync => true
  | _ => false

/-- The handlers, in the order of their statements. -/
def Kind.script : Kind → List Action
  | .selfUpgrade => [.tryLock .upgradeLock,.tryLock .backupLock,.detached]
  -- the dump or the base backup, its compression or its fsync, the rotation
  | .createBackup => [.tryLock .backupLock,.async,.detached,.detached]
  -- the decompression, then psql
  | .dumpRestore => [.tryLock .backupLock,.detached,.async]
  -- the stop, the copy, the removal of the staged tree or its way back, the signal file, the start's
  -- configuration files, the postmaster
  | .fullRestore => [.tryLock .backupLock,.lock .supervisor,.async,.detached,.detached,.detached,.detached,.async]
  | .apply => [.tryLock .upgradeLock,.lock .supervisor,.async]
  -- the probe, the stop and the wipe, the slot, `pg_basebackup`, the start's configuration files, the
  -- postmaster
  | .rejoin => [.tryLock .upgradeLock,.lock .supervisor,.async,.detached,.detached,.detached,.async]
  | .confirm => [.tryLock .upgradeLock,.sync]
  -- the stop, the start's configuration files, the postmaster and what is moved aside
  | .rollback => [.tryLock .upgradeLock,.lock .supervisor,.async,.detached,.async]

/-- The apply runs in a task of its own, which no client can drop. -/
def Kind.spawned (k : Kind) : Bool := k = .apply

/-- A request: how many of its actions are done, whether the future is there, and whether an action that
the future does not carry itself is running. -/
structure Operation where
  kind : Kind
  done : ℕ := 0
  alive : Bool := true
  running : Bool := false
  deriving DecidableEq

def Operation.next (o : Operation) : Option Action := o.kind.script[o.done]?

def Operation.held (o : Operation) : List Lock :=
  if o.alive then (o.kind.script.take o.done).filterMap Action.acquires else []

def Operation.inProgress (o : Operation) : Bool :=
  (o.running || (o.kind.script.take o.done).any Action.works) && (o.alive || o.running)

def Operation.ended (o : Operation) : Operation := {o with alive := false}

abbrev Node := List Operation

def held (s : Node) (l : Lock) : Bool := s.any fun o => l ∈ o.held

inductive Event
  | request (k : Kind)
  -- the next action of a future is polled
  | poll (i : ℕ)
  -- what it waits for is over
  | complete (i : ℕ)
  -- the future returns early
  | refuse (i : ℕ)
  | disconnect (i : ℕ)

def poll (s : Node) (o : Operation) : Option Operation :=
  if !o.alive || o.running then none
  else match o.next with
    | none => some o.ended
    | some (.tryLock l) => if held s l then some o.ended else some {o with done := o.done+1}
    | some (.lock l) => if held s l then none else some {o with done := o.done+1}
    | some .async => some {o with done := o.done+1}
    | some .detached | some .sync => some {o with running := true}

def disconnect (o : Operation) : Option Operation :=
  if !o.alive || o.kind.spawned || (o.running && o.next = some .sync) then none else some o.ended

def step (s : Node) : Event → Option Node
  | .request k => some (s++[{kind := k}])
  | .poll i => s[i]?.bind fun o => (poll s o).map (s.set i ·)
  | .complete i => s[i]?.bind fun o =>
    if o.running then some (s.set i {o with done := o.done+1, running := false}) else none
  | .refuse i => s[i]?.bind fun o => if o.alive && !o.running then some (s.set i o.ended) else none
  | .disconnect i => s[i]?.bind fun o => (disconnect o).map (s.set i ·)

def Kind.copies (k : Kind) : Bool := k ∈ [.createBackup,.dumpRestore,.fullRestore]

def Apart (R : Operation → Operation → Prop) (s : Node) : Prop :=
  ∀ (i j : ℕ) (o o' : Operation), i ≠ j → s[i]? = some o → s[j]? = some o' → R o o'

/-- A full restore and a confirm, which share no lock. -/
def Kind.unlocked (k k' : Kind) : Bool :=
  k = .fullRestore && k' = .confirm || k = .confirm && k' = .fullRestore

/-- No future is dropped while it waits for a thread or a process, and the callers send no confirm before
a full restore is answered and no full restore before a confirm is. -/
def meets (s : Node) : Event → Prop
  | .request k => ∀ o ∈ s, o.alive = true → k.unlocked o.kind = false
  | .disconnect i => ∀ o ∈ s[i]?, o.running = false
  | _ => True

section Apart
variable {R : Operation → Operation → Prop} {s : Node} {i : ℕ} {o : Operation}

end Apart

section Locks
variable {s : Node} {o o' : Operation}

/-- A running action is one of work. -/
def Proper (o : Operation) : Prop := o.running = true → o.next.any Action.works = true

end Locks

section Steps
variable {s s' : Node} {o o' : Operation} {e : Event}

structure Moves (s : Node) (o o' : Operation) : Prop where
  kind : o'.kind = o.kind
  alive : o'.alive = true → o.alive = true
  proper : Proper o → Proper o'
  held : ∀ l ∈ o'.held, l ∈ o.held ∨ NodeOperations.held s l = false

end Steps

section Sample

def dropped : List Event :=
  [.request .selfUpgrade,.poll 0,.poll 0,.poll 0,.disconnect 0]

instance instDecidableMeets (s : Node) (e : Event) : Decidable (meets s e) :=
  match e with
  | .request k => inferInstanceAs (Decidable (∀ o ∈ s, o.alive = true → k.unlocked o.kind = false))
  | .disconnect i => inferInstanceAs (Decidable (∀ o ∈ s[i]?, o.running = false))
  | .poll _ | .complete _ | .refuse _ => isTrue trivial

end Sample

end NodeOperations
end PgBattery
