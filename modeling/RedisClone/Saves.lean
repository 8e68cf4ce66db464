import RedisClone.Database.Snapshot

/-!
This module contains the saves of the keyspace: `SAVE`, `BGSAVE` and the one on shutdown all run
`save_to`, each in a task of its own, while the store is written to.
-/

namespace RedisClone

/--
A `save_to` that has taken its snapshot: the store it has read, which was the state number `version`
of the keyspace, its JSON, and the name of its temporary file once that is written.
-/
structure Saving where
  version : Nat
  store : Store
  json : List UInt8
  temp : Option Nat

/--
The keyspace with the states it was in earlier, the files, and the saves in progress and returned.
-/
structure Saves where
  store : Store
  earlier : List Store
  tempCounter : Nat
  temps : Nat → Option (List UInt8)
  file : Option (List UInt8)
  saving : Nat → Option Saving
  completed : List Saving

/--
What can happen next: anything is written to the store, or a task gets on with its save, which may
fail at any time.
-/
inductive SaveEvent where
  | write (store : Store)
  | snapshot (task : Nat) (env : Env)
  | writeTemp (task : Nat)
  | rename (task : Nat)
  | fail (task : Nat)

namespace Saves

def new (store : Store) (file : Option (List UInt8)) : Saves where
  store := store
  earlier := []
  tempCounter := 0
  temps := fun _ => none
  file := file
  saving := fun _ => none
  completed := []

/--
All states of the keyspace so far; the place of a state is its version.
-/
def states (self : Saves) : List Store := self.earlier ++ [self.store]

section

/-
The JSON text of a snapshot comes from outside the repository.
-/
variable (toVecPretty : Snapshot → Except String (List UInt8))

def step (self : Saves) : SaveEvent → Option Saves
  | .write store => some { self with store, earlier := self.states }
  | .snapshot task env =>
    match self.saving task, toVecPretty (Db.snapshot env self.store) with
    | none, .ok json =>
      let saving := ⟨self.earlier.length, self.store, json, none⟩
      some { self with saving := Function.update self.saving task (some saving) }
    | none, .error _ => some self
    | some _, _ => none
  | .writeTemp task =>
    match self.saving task with
    | some ⟨version, store, json, none⟩ =>
      let unique := self.tempCounter
      some
        { self with
          tempCounter := unique + 1
          temps := Function.update self.temps unique (some json)
          saving := Function.update self.saving task (some ⟨version, store, json, some unique⟩) }
    | _ => none
  | .rename task =>
    match self.saving task with
    | some ⟨version, store, json, some unique⟩ =>
      (self.temps unique).map fun bytes =>
        { self with
          temps := Function.update self.temps unique none
          file := some bytes
          saving := Function.update self.saving task none
          completed := self.completed ++ [⟨version, store, json, some unique⟩] }
    | _ => none
  | .fail task =>
    (self.saving task).map fun _ => { self with saving := Function.update self.saving task none }

def run : List SaveEvent → Saves → Option Saves
  | [], self => some self
  | event :: events, self => (self.step toVecPretty event).bind (run events)

/--
The keyspace was in this state at the given version or after it.
-/
def HeldSince (self : Saves) (version : Nat) (store : Store) : Prop :=
  ∃ later, version ≤ later ∧ self.states[later]? = some store

/--
The snapshot file holds a state of the keyspace at least as recent as the given version.
-/
def FileSince (self : Saves) (version : Nat) : Prop :=
  ∃ store env json, self.HeldSince version store
    ∧ toVecPretty (Db.snapshot env store) = .ok json ∧ self.file = some json

/--
A save may rename its file if the store it has read is not older than that of any save which has
returned.
-/
def InOrder (self : Saves) : SaveEvent → Prop
  | .rename task => ∀ saving : Saving, self.saving task = some saving →
    ∀ done ∈ self.completed, self.HeldSince done.version saving.store
  | _ => True

/--
Every step of a run keeps the order.
-/
def RunInOrder : List SaveEvent → Saves → Prop
  | [], _ => True
  | event :: events, self =>
    self.InOrder event ∧ ∀ next, self.step toVecPretty event = some next → RunInOrder events next

end

end Saves
end RedisClone
