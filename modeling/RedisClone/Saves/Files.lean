import RedisClone.Lib.Files
import RedisClone.Rust.Path
import RedisClone.Saves.Order

/-!
This module contains the saves with each step of `save_to` on its own, down to the pieces in which a
file is written, and the proof that the snapshot file is never torn.
-/

namespace RedisClone

/--
Where a `save_to` is: it has its JSON, then a temporary name, then the file of that name with the first
`written` bytes in it.
-/
inductive SaveTo where
  | serialized (json : List UInt8)
  | named (json : List UInt8) (temp : Path)
  | writing (json : List UInt8) (temp : Path) (inode written : Nat)

namespace SaveTo

def json : SaveTo → List UInt8
  | .serialized json | .named json _ | .writing json _ _ _ => json

def temp : SaveTo → Option Path
  | .serialized _ => none
  | .named _ temp | .writing _ temp _ _ => some temp

end SaveTo

structure SaveFiles where
  store : Store
  tempCounter : Nat
  files : Files Path UInt8
  saving : Nat → Option SaveTo

/--
What can happen next: anything is written to the store, or a task gets on with its save. A save may
fail at any time, and a crash is the end of the run.
-/
inductive FileEvent where
  | write (store : Store)
  | snapshot (task : Nat) (env : Env)
  | name (task : Nat)
  | create (task : Nat)
  | writeSome (task count : Nat)
  | rename (task : Nat)
  | fail (task : Nat)

namespace SaveFiles

def new (store : Store) (files : Files Path UInt8) : SaveFiles where
  store := store
  tempCounter := 0
  files := files
  saving := fun _ => none

/--
`path.with_extension(format!("tmp.{}.{unique}", std::process::id()))`.
-/
def tempName (path : Path) (processId unique : Nat) : Path :=
  path.withExtension ("tmp." ++ toString processId ++ "." ++ toString unique)

section

variable (toVecPretty : Snapshot → Except String (List UInt8)) (path : Path) (processId : Nat)

def step (self : SaveFiles) : FileEvent → Option SaveFiles
  | .write store => some { self with store }
  | .snapshot task env =>
    match self.saving task, toVecPretty (Db.snapshot env self.store) with
    | none, .ok json =>
      some { self with saving := Function.update self.saving task (some (.serialized json)) }
    | none, .error _ => some self
    | some _, _ => none
  | .name task =>
    match self.saving task with
    | some (.serialized json) =>
      let unique := self.tempCounter
      let temp := tempName path processId unique
      some
        { self with
          tempCounter := unique + 1
          saving := Function.update self.saving task (some (.named json temp)) }
    | _ => none
  | .create task =>
    match self.saving task with
    | some (.named json temp) =>
      let (files, inode) := self.files.create temp
      some
        { self with
          files
          saving := Function.update self.saving task (some (.writing json temp inode 0)) }
    | _ => none
  | .writeSome task count =>
    match self.saving task with
    | some (.writing json temp inode written) =>
      let bytes := (json.drop written).take count
      some
        { self with
          files := self.files.writeAt inode written bytes
          saving := Function.update self.saving task
            (some (.writing json temp inode (written + bytes.length))) }
    | _ => none
  | .rename task =>
    match self.saving task with
    | some (.writing json temp _ written) =>
      if written = json.length then
        (self.files.rename temp path).map fun files =>
          { self with files, saving := Function.update self.saving task none }
      else
        none
    | _ => none
  | .fail task =>
    (self.saving task).map fun _ => { self with saving := Function.update self.saving task none }

def run : List FileEvent → SaveFiles → Option SaveFiles
  | [], self => some self
  | event :: events, self => (self.step toVecPretty path processId event).bind (run events)

/--
The bytes are the JSON of a snapshot that was taken during the run, of the store of that moment.
-/
def Serialized (start : SaveFiles) (events : List FileEvent) (json : List UInt8) : Prop :=
  ∃ before task env after moment, events = before ++ .snapshot task env :: after
    ∧ run toVecPretty path processId before start = some moment
    ∧ toVecPretty (Db.snapshot env moment.store) = .ok json

/--
Each save writes to a file that no other one knows of, and the file in place is whole.
-/
structure Private (Whole : List UInt8 → Prop) (original : Option (List UInt8)) (saves : SaveFiles)
    : Prop where
  json : ∀ task saveTo, saves.saving task = some saveTo → Whole saveTo.json
  name : ∀ task saveTo temp, saves.saving task = some saveTo → saveTo.temp = some temp
    → ∃ unique < saves.tempCounter, temp = tempName path processId unique
  own : ∀ task task' saveTo saveTo' temp, saves.saving task = some saveTo
    → saves.saving task' = some saveTo' → saveTo.temp = some temp → saveTo'.temp = some temp
    → task = task'
  file : ∀ task json temp inode written,
    saves.saving task = some (.writing json temp inode written)
    → saves.files.directory temp = some inode ∧ written ≤ json.length
      ∧ saves.files.contents inode = json.take written
  target : saves.files.read path = original ∨ ∃ json, Whole json ∧ saves.files.read path = some json

end

/-
Temporary names.
-/

theorem tempName_ne (path : Path) (processId unique : Nat)
    : tempName path processId unique ≠ path := by
  apply Path.withExtension_ne
  simp

theorem tempName_inj {path : Path} {processId unique unique' : Nat}
    : tempName path processId unique = tempName path processId unique' ↔ unique = unique' := by
  unfold tempName
  rw [Path.withExtension_inj, String.append_right_inj]
  exact Nat.repr_inj

section

variable {toVecPretty : Snapshot → Except String (List UInt8)} {path : Path} {processId : Nat}
  {Whole Whole' : List UInt8 → Prop} {original : Option (List UInt8)} {self next : SaveFiles}

theorem Private.mono (h : Private path processId Whole original self)
    (hmono : ∀ json, Whole json → Whole' json)
    : Private path processId Whole' original self := by
  refine ⟨?_, h.name, h.own, h.file, ?_⟩
  . intro task saveTo hsaving
    exact hmono _ (h.json task saveTo hsaving)
  . rcases h.target with horiginal | ⟨json, hjson, hread⟩
    . exact .inl horiginal
    . exact .inr ⟨json, hmono json hjson, hread⟩

theorem Private.name_ne (h : Private path processId Whole original self) {task : Nat}
    {saveTo : SaveTo} {temp : Path} (hsaving : self.saving task = some saveTo)
    (htemp : saveTo.temp = some temp)
    : temp ≠ path := by
  rcases h.name task saveTo temp hsaving htemp with ⟨unique, -, rfl⟩
  exact tempName_ne path processId unique

theorem private_new (store : Store) (files : Files Path UInt8)
    : Private path processId Whole (files.read path) (new store files) := by
  refine ⟨?_, ?_, ?_, ?_, .inl rfl⟩
  all_goals simp [new]

theorem private_write (h : Private path processId Whole original self) (store : Store)
    : Private path processId Whole original { self with store } := by
  exact ⟨h.json, h.name, h.own, h.file, h.target⟩

theorem private_snapshot (h : Private path processId Whole original self) (task : Nat)
    {json : List UInt8} (hjson : Whole json)
    : Private path processId Whole original
        { self with saving := Function.update self.saving task (some (.serialized json)) } := by
  refine ⟨?_, ?_, ?_, ?_, h.target⟩
  . intro task' saveTo hsaving
    rcases Saves.update_some hsaving with ⟨-, rfl⟩ | ⟨-, hsaving⟩
    . exact hjson
    . exact h.json task' saveTo hsaving
  . intro task' saveTo temp hsaving htemp
    rcases Saves.update_some hsaving with ⟨-, rfl⟩ | ⟨-, hsaving⟩
    . cases htemp
    . exact h.name task' saveTo temp hsaving htemp
  . intro left right saveTo saveTo' temp hleft hright htemp htemp'
    rcases Saves.update_some hleft with ⟨-, rfl⟩ | ⟨-, hleft⟩
    . cases htemp
    . rcases Saves.update_some hright with ⟨-, rfl⟩ | ⟨-, hright⟩
      . cases htemp'
      . exact h.own left right saveTo saveTo' temp hleft hright htemp htemp'
  . intro task' json' temp inode written hsaving
    rcases Saves.update_some hsaving with ⟨-, heq⟩ | ⟨-, hsaving⟩
    . cases heq
    . exact h.file task' json' temp inode written hsaving

theorem private_name (h : Private path processId Whole original self) {task : Nat}
    {json : List UInt8} (hsaving : self.saving task = some (.serialized json))
    : Private path processId Whole original
        { self with
          tempCounter := self.tempCounter + 1
          saving := Function.update self.saving task
            (some (.named json (tempName path processId self.tempCounter))) } := by
  -- the counter is past every name in use
  have hfresh : ∀ task' saveTo, self.saving task' = some saveTo
      → saveTo.temp ≠ some (tempName path processId self.tempCounter) := by
    intro task' saveTo hsaving' htemp
    rcases h.name task' saveTo _ hsaving' htemp with ⟨unique, hlt, heq⟩
    rw [tempName_inj] at heq
    omega
  refine ⟨?_, ?_, ?_, ?_, h.target⟩
  . intro task' saveTo hsaving'
    rcases Saves.update_some hsaving' with ⟨-, rfl⟩ | ⟨-, hsaving'⟩
    . exact h.json task (.serialized json) hsaving
    . exact h.json task' saveTo hsaving'
  . intro task' saveTo temp hsaving' htemp
    rcases Saves.update_some hsaving' with ⟨-, rfl⟩ | ⟨-, hsaving'⟩
    . cases htemp
      exact ⟨self.tempCounter, Nat.lt_succ_self _, rfl⟩
    . rcases h.name task' saveTo temp hsaving' htemp with ⟨unique, hlt, heq⟩
      exact ⟨unique, Nat.lt_succ_of_lt hlt, heq⟩
  . intro left right saveTo saveTo' temp hleft hright htemp htemp'
    rcases Saves.update_some hleft with ⟨hl, rfl⟩ | ⟨-, hleft⟩
    . rcases Saves.update_some hright with ⟨hr, rfl⟩ | ⟨-, hright⟩
      . exact hl.symm.trans hr
      . cases htemp
        exact absurd htemp' (hfresh right saveTo' hright)
    . rcases Saves.update_some hright with ⟨-, rfl⟩ | ⟨-, hright⟩
      . cases htemp'
        exact absurd htemp (hfresh left saveTo hleft)
      . exact h.own left right saveTo saveTo' temp hleft hright htemp htemp'
  . intro task' json' temp inode written hsaving'
    rcases Saves.update_some hsaving' with ⟨-, heq⟩ | ⟨-, hsaving'⟩
    . cases heq
    . exact h.file task' json' temp inode written hsaving'

/--
A step of one save that keeps its JSON and its name, and does to the files of the others and to the
file in place nothing.
-/
theorem private_progress (h : Private path processId Whole original self) {task : Nat}
    {before : SaveTo} {json : List UInt8} {temp : Path} {inode written : Nat}
    {files : Files Path UInt8} (hsaving : self.saving task = some before)
    (hjson : before.json = json) (htemp : before.temp = some temp)
    (hfile : files.directory temp = some inode ∧ written ≤ json.length
      ∧ files.contents inode = json.take written)
    (hothers : ∀ other inode', other ≠ temp → self.files.directory other = some inode'
      → files.directory other = some inode' ∧ files.contents inode' = self.files.contents inode')
    (htarget : files.read path = self.files.read path)
    : Private path processId Whole original
        { self with
          files
          saving := Function.update self.saving task
            (some (.writing json temp inode written)) } := by
  refine ⟨?_, ?_, ?_, ?_, ?_⟩
  . intro task' saveTo hsaving'
    rcases Saves.update_some hsaving' with ⟨-, rfl⟩ | ⟨-, hsaving'⟩
    . rw [← hjson] at *
      exact h.json task before hsaving
    . exact h.json task' saveTo hsaving'
  . intro task' saveTo temp' hsaving' htemp'
    rcases Saves.update_some hsaving' with ⟨-, rfl⟩ | ⟨-, hsaving'⟩
    . cases htemp'
      exact h.name task before temp hsaving htemp
    . exact h.name task' saveTo temp' hsaving' htemp'
  . intro left right saveTo saveTo' temp' hleft hright htemp₁ htemp₂
    rcases Saves.update_some hleft with ⟨hl, rfl⟩ | ⟨hl, hleft⟩
    . rcases Saves.update_some hright with ⟨hr, rfl⟩ | ⟨hr, hright⟩
      . exact hl.symm.trans hr
      . cases htemp₁
        exact absurd (h.own task right before saveTo' temp hsaving hright htemp htemp₂) hr
    . rcases Saves.update_some hright with ⟨-, rfl⟩ | ⟨-, hright⟩
      . cases htemp₂
        exact absurd (h.own task left before saveTo temp hsaving hleft htemp htemp₁) hl
      . exact h.own left right saveTo saveTo' temp' hleft hright htemp₁ htemp₂
  . intro task' json' temp' inode' written' hsaving'
    rcases Saves.update_some hsaving' with ⟨-, heq⟩ | ⟨hne, hkeeps⟩
    . cases heq
      exact hfile
    . rcases h.file task' json' temp' inode' written' hkeeps with ⟨hdirectory, hle, hcontents⟩
      have hother : temp' ≠ temp := by
        rintro rfl
        exact hne (h.own task task' before _ temp' hsaving hkeeps htemp rfl)
      have hkept := hothers temp' inode' hother hdirectory
      exact ⟨hkept.1, hle, hkept.2.trans hcontents⟩
  . rw [htarget]
    exact h.target

theorem private_create (h : Private path processId Whole original self) {task : Nat}
    {json : List UInt8} {temp : Path} (hsaving : self.saving task = some (.named json temp))
    : Private path processId Whole original
        { self with
          files := (self.files.create temp).1
          saving := Function.update self.saving task
            (some (.writing json temp (self.files.create temp).2 0)) } := by
  apply private_progress h hsaving rfl rfl
  . exact ⟨Files.directory_create _ _, Nat.zero_le _, Files.contents_create _ _⟩
  . intro other inode' hne hdirectory
    refine ⟨?_, Files.contents_create_of_ne hne hdirectory⟩
    rw [Files.directory_create_of_ne hne, hdirectory]
  . exact Files.read_create_of_ne (h.name_ne hsaving rfl).symm

theorem private_writeSome (h : Private path processId Whole original self) {task : Nat}
    {json : List UInt8} {temp : Path} {inode written : Nat}
    (hsaving : self.saving task = some (.writing json temp inode written)) (count : Nat)
    : Private path processId Whole original
        { self with
          files := self.files.writeAt inode written ((json.drop written).take count)
          saving := Function.update self.saving task
            (some (.writing json temp inode
              (written + ((json.drop written).take count).length))) } := by
  rcases h.file task json temp inode written hsaving with ⟨hdirectory, hle, hcontents⟩
  have hlength : (self.files.contents inode).length = written := by
    rw [hcontents, List.length_take, Nat.min_eq_left hle]
  have hjson : (SaveTo.writing json temp inode written).json = json := rfl
  apply private_progress h hsaving hjson rfl
  . refine ⟨hdirectory, ?_, ?_⟩
    . rw [List.length_take, List.length_drop]
      omega
    . rw [Files.contents_writeAt_length hlength, hcontents, List.take_add, List.length_take,
        ← List.take_eq_take_min]
  . intro other inode' hne hother
    refine ⟨hother, ?_⟩
    apply Files.contents_writeAt_of_ne
    rintro rfl
    exact hne (self.files.own other temp inode' hother hdirectory)
  . apply Files.read_writeAt_of_ne
    intro hpath
    exact h.name_ne hsaving rfl (self.files.own temp path inode hdirectory hpath)

/--
A save that renames its file renames one that is whole, and that no other save writes to.
-/
theorem rename_own (h : Private path processId Whole original self) {task : Nat}
    (hstep : self.step toVecPretty path processId (.rename task) = some next)
    : ∃ json temp inode, self.saving task = some (.writing json temp inode json.length)
        ∧ self.files.read temp = some json
        ∧ (∀ other saveTo, other ≠ task → self.saving other = some saveTo
          → saveTo.temp ≠ some temp)
        ∧ next.files.read path = some json := by
  simp only [step] at hstep
  split at hstep
  . next json temp inode written hsaving =>
    split at hstep
    . next hwritten =>
      subst hwritten
      rcases h.file task json temp inode json.length hsaving with ⟨hdirectory, -, hcontents⟩
      rw [List.take_length] at hcontents
      rw [Option.map_eq_some_iff] at hstep
      rcases hstep with ⟨files, hrename, rfl⟩
      refine ⟨json, temp, inode, hsaving, (Files.read_eq_some hdirectory).mpr hcontents, ?_, ?_⟩
      . intro other saveTo hne hother htemp
        exact hne (h.own other task saveTo _ temp hother hsaving htemp rfl)
      . rcases Files.rename_eq_some.mp hrename with ⟨inode', hsource, hnext, hfiles, -⟩
        rw [hdirectory, Option.some.injEq] at hsource
        subst hsource
        have htarget : files.directory path = some inode := by
          rw [hnext]
          exact Function.update_self _ _ _
        rw [Files.read_eq_some htarget, hfiles, hcontents]
    . cases hstep
  . cases hstep

theorem private_rename (h : Private path processId Whole original self) {task : Nat}
    (hstep : self.step toVecPretty path processId (.rename task) = some next)
    : Private path processId Whole original next := by
  rcases rename_own h hstep with ⟨json, temp, inode, hsaving, -, hothers, htarget⟩
  simp only [step, hsaving, if_true, Option.map_eq_some_iff] at hstep
  rcases hstep with ⟨files, hrename, rfl⟩
  rcases Files.rename_eq_some.mp hrename with ⟨inode', -, hnext, hfiles, -⟩
  refine ⟨?_, ?_, ?_, ?_, ?_⟩
  . intro task' saveTo hsaving'
    exact h.json task' saveTo (Saves.update_none hsaving').2
  . intro task' saveTo temp' hsaving' htemp'
    exact h.name task' saveTo temp' (Saves.update_none hsaving').2 htemp'
  . intro left right saveTo saveTo' temp' hleft hright htemp htemp'
    exact h.own left right saveTo saveTo' temp' (Saves.update_none hleft).2
      (Saves.update_none hright).2 htemp htemp'
  . intro task' json' temp' inode'' written hsaving'
    rcases Saves.update_none hsaving' with ⟨hne, hkeeps⟩
    rcases h.file task' json' temp' inode'' written hkeeps with ⟨hdirectory, hle, hcontents⟩
    have htemp : temp' ≠ temp := by
      intro heq
      apply hothers task' _ hne.symm hkeeps
      rw [heq]
      rfl
    have hpath : temp' ≠ path := h.name_ne hkeeps rfl
    refine ⟨?_, hle, ?_⟩
    . dsimp only
      rw [hnext, Function.update_of_ne hpath, Function.update_of_ne htemp, hdirectory]
    . rw [hfiles, hcontents]
  . exact .inr ⟨json, h.json task _ hsaving, htarget⟩

theorem private_fail (h : Private path processId Whole original self) (task : Nat)
    : Private path processId Whole original
        { self with saving := Function.update self.saving task none } := by
  refine ⟨?_, ?_, ?_, ?_, h.target⟩
  . intro task' saveTo hsaving
    exact h.json task' saveTo (Saves.update_none hsaving).2
  . intro task' saveTo temp hsaving htemp
    exact h.name task' saveTo temp (Saves.update_none hsaving).2 htemp
  . intro left right saveTo saveTo' temp hleft hright htemp htemp'
    exact h.own left right saveTo saveTo' temp (Saves.update_none hleft).2
      (Saves.update_none hright).2 htemp htemp'
  . intro task' json temp inode written hsaving
    exact h.file task' json temp inode written (Saves.update_none hsaving).2

theorem step_private {event : FileEvent} (h : Private path processId Whole original self)
    (hsnapshot : ∀ task env json, event = .snapshot task env
      → toVecPretty (Db.snapshot env self.store) = .ok json → Whole json)
    (hstep : self.step toVecPretty path processId event = some next)
    : Private path processId Whole original next := by
  cases event with
  | write store =>
    cases hstep
    exact private_write h store
  | snapshot task env =>
    simp only [step] at hstep
    split at hstep
    . next json _ hjson =>
      cases hstep
      exact private_snapshot h task (hsnapshot task env json rfl hjson)
    . cases hstep
      exact h
    . cases hstep
  | name task =>
    simp only [step] at hstep
    split at hstep
    . next hsaving =>
      cases hstep
      exact private_name h hsaving
    . cases hstep
  | create task =>
    simp only [step] at hstep
    split at hstep
    . next hsaving =>
      cases hstep
      exact private_create h hsaving
    . cases hstep
  | writeSome task count =>
    simp only [step] at hstep
    split at hstep
    . next hsaving =>
      cases hstep
      exact private_writeSome h hsaving count
    . cases hstep
  | rename task => exact private_rename h hstep
  | fail task =>
    simp only [step, Option.map_eq_some_iff] at hstep
    rcases hstep with ⟨saveTo, -, rfl⟩
    exact private_fail h task

theorem run_append (events events' : List FileEvent) (self : SaveFiles)
    : run toVecPretty path processId (events ++ events') self
        =
      (run toVecPretty path processId events self).bind (run toVecPretty path processId events') := by
  induction events generalizing self with
  | nil => rfl
  | cons event events ih =>
    rw [List.cons_append, run, run]
    cases self.step toVecPretty path processId event with
    | none => rfl
    | some next => exact ih next

theorem Serialized.append {start : SaveFiles} {events : List FileEvent} {json : List UInt8}
    (h : Serialized toVecPretty path processId start events json) (more : List FileEvent)
    : Serialized toVecPretty path processId start (events ++ more) json := by
  rcases h with ⟨before, task, env, after, moment, rfl, hrun, hjson⟩
  refine ⟨before, task, env, after ++ more, moment, ?_, hrun, hjson⟩
  rw [List.append_assoc, List.cons_append]

/--
The induction is from the end of the run: the last event is a snapshot of the state that the events
before it lead to.
-/
theorem run_private {store : Store} {files : Files Path UInt8} {events : List FileEvent}
    {saves : SaveFiles} (hrun : run toVecPretty path processId events (new store files) = some saves)
    : Private path processId (Serialized toVecPretty path processId (new store files) events)
        (files.read path) saves := by
  induction events using List.reverseRecOn generalizing saves with
  | nil =>
    cases hrun
    exact private_new store files
  | append_singleton events event ih =>
    rw [run_append, Option.bind_eq_some_iff] at hrun
    rcases hrun with ⟨between, hbefore, hlast⟩
    have hstep : between.step toVecPretty path processId event = some saves := by
      rw [run, Option.bind_eq_some_iff] at hlast
      rcases hlast with ⟨next, hstep, hend⟩
      cases hend
      exact hstep
    apply step_private ((ih hbefore).mono fun json hjson => hjson.append [event]) _ hstep
    rintro task env json rfl hjson
    exact ⟨events, task, env, [], between, rfl, hbefore, hjson⟩

/--
After any run of any number of saves, wherever a crash ends it, the file in place is the one from the
start or the whole JSON of a snapshot of the store that was taken during the run; and a save that goes
on to rename its file gives the place to a whole one of its own.
-/
theorem snapshot_file_whole {store : Store} {files : Files Path UInt8} {events : List FileEvent}
    {saves : SaveFiles} (hrun : run toVecPretty path processId events (new store files) = some saves)
    : (saves.files.read path = files.read path
          ∨ ∃ json, Serialized toVecPretty path processId (new store files) events json
            ∧ saves.files.read path = some json)
        ∧
      ∀ task next, saves.step toVecPretty path processId (.rename task) = some next
        → ∃ json temp inode, saves.saving task = some (.writing json temp inode json.length)
          ∧ saves.files.read temp = some json
          ∧ (∀ other saveTo, other ≠ task → saves.saving other = some saveTo
            → saveTo.temp ≠ some temp)
          ∧ next.files.read path = some json := by
  have hprivate := run_private hrun
  refine ⟨hprivate.target, ?_⟩
  intro task next hstep
  exact rename_own hprivate hstep

end

/--
A crash in the middle of two saves, one of which has written a part of its file.
-/
theorem snapshot_file_whole_partial
    : let env := envAt startOfClock
      let path : Path := ⟨"data", "dump.rdb.json"⟩
      let events : List FileEvent :=
        [.snapshot 0 env, .name 0, .create 0, .writeSome 0 5,
          .write ((∅ : Store).insert "k" ⟨.str "v", none⟩), .snapshot 1 env, .name 1]
      ∃ saves, run Saves.jsonOf path 7 events (new ∅ .empty) = some saves
        ∧ (saves.files.read path = none
          ∨ ∃ json, Serialized Saves.jsonOf path 7 (new ∅ .empty) events json
            ∧ saves.files.read path = some json) := by
  intro env path events
  have hsome : (run Saves.jsonOf path 7 events (new ∅ .empty)).isSome = true := by
    simp [events, run, step, new, Function.update, Saves.jsonOf_snapshot_empty,
      Saves.jsonOf_snapshot_stored]
  rcases Option.isSome_iff_exists.mp hsome with ⟨saves, hrun⟩
  exact ⟨saves, hrun, (snapshot_file_whole hrun).1⟩

end SaveFiles
end RedisClone
