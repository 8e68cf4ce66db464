import RedisClone.Saves

/-!
This module contains the proof that saves which rename their files in the order of their snapshots
never undo one another, and a run in which they do.
-/

namespace RedisClone
namespace Saves

section

variable (toVecPretty : Snapshot → Except String (List UInt8))

/--
A save whose snapshot is of the state it says.
-/
structure Taken (states : List Store) (saving : Saving) : Prop where
  held : states[saving.version]? = some saving.store
  json : ∃ env, toVecPretty (Db.snapshot env saving.store) = .ok saving.json

/--
Each save in progress has a temporary file of its own, and the file in place is the one of the last
save that has returned.
-/
structure Consistent (saves : Saves) : Prop where
  taken : ∀ (task : Nat) (saving : Saving), saves.saving task = some saving
    → Taken toVecPretty saves.states saving
  done : ∀ done ∈ saves.completed, Taken toVecPretty saves.states done
  temp : ∀ (task unique : Nat) (saving : Saving), saves.saving task = some saving
    → saving.temp = some unique → unique < saves.tempCounter ∧ saves.temps unique = some saving.json
  own : ∀ (task task' unique : Nat) (saving saving' : Saving), saves.saving task = some saving
    → saves.saving task' = some saving' → saving.temp = some unique → saving'.temp = some unique
    → task = task'
  file : ∀ last, saves.completed.getLast? = some last → saves.file = some last.json

variable {toVecPretty} {self next : Saves} {event : SaveEvent}

theorem HeldSince.mono {version version' : Nat} {store : Store} (h : self.HeldSince version store)
    (hle : version' ≤ version)
    : self.HeldSince version' store := by
  rcases h with ⟨later, hlater, hstore⟩
  exact ⟨later, Nat.le_trans hle hlater, hstore⟩

theorem step_states (hstep : self.step toVecPretty event = some next) {version : Nat} {store : Store}
    (hstore : self.states[version]? = some store)
    : next.states[version]? = some store := by
  cases event with
  | write written =>
    cases hstep
    rw [states, List.getElem?_append_left]
    . exact hstore
    . exact (List.getElem?_eq_some_iff.mp hstore).1
  | snapshot task env =>
    simp only [step] at hstep
    split at hstep <;> cases hstep <;> exact hstore
  | writeTemp task =>
    simp only [step] at hstep
    split at hstep <;> cases hstep
    exact hstore
  | rename task =>
    simp only [step] at hstep
    split at hstep
    . rw [Option.map_eq_some_iff] at hstep
      rcases hstep with ⟨bytes, -, rfl⟩
      exact hstore
    . cases hstep
  | fail task =>
    simp only [step, Option.map_eq_some_iff] at hstep
    rcases hstep with ⟨saving, -, rfl⟩
    exact hstore

theorem step_heldSince (hstep : self.step toVecPretty event = some next) {version : Nat}
    {store : Store} (h : self.HeldSince version store)
    : next.HeldSince version store := by
  rcases h with ⟨later, hlater, hstore⟩
  exact ⟨later, hlater, step_states hstep hstore⟩

theorem step_taken (hstep : self.step toVecPretty event = some next) {saving : Saving}
    (h : Taken toVecPretty self.states saving)
    : Taken toVecPretty next.states saving :=
  ⟨step_states hstep h.held, h.json⟩

theorem update_some {α : Type} {saving saving' : α} {task task' : Nat} {savings : Nat → Option α}
    (h : Function.update savings task (some saving) task' = some saving')
    : (task = task' ∧ saving = saving') ∨ (task ≠ task' ∧ savings task' = some saving') := by
  rw [Function.update_apply] at h
  split at h
  . next heq =>
    cases h
    exact .inl ⟨heq.symm, rfl⟩
  . next hne => exact .inr ⟨Ne.symm hne, h⟩

theorem update_none {α : Type} {saving : α} {task task' : Nat} {savings : Nat → Option α}
    (h : Function.update savings task none task' = some saving)
    : task ≠ task' ∧ savings task' = some saving := by
  rw [Function.update_apply] at h
  split at h
  . cases h
  . next hne => exact ⟨Ne.symm hne, h⟩

theorem consistent_new (store : Store) (file : Option (List UInt8))
    : (new store file).Consistent toVecPretty := by
  refine ⟨?_, ?_, ?_, ?_, ?_⟩
  all_goals simp [new]

theorem consistent_snapshot (h : self.Consistent toVecPretty) {task : Nat} {env : Env}
    {json : List UInt8} (hjson : toVecPretty (Db.snapshot env self.store) = .ok json)
    : let saving := ⟨self.earlier.length, self.store, json, none⟩
      Consistent toVecPretty { self with saving := Function.update self.saving task (some saving) } := by
  refine ⟨?_, h.done, ?_, ?_, h.file⟩
  . intro task' saving' hsaving'
    rcases update_some hsaving' with ⟨-, rfl⟩ | ⟨-, hsaving'⟩
    . exact ⟨List.getElem?_concat_length, env, hjson⟩
    . exact h.taken task' saving' hsaving'
  . intro task' unique saving' hsaving' htemp
    rcases update_some hsaving' with ⟨-, rfl⟩ | ⟨-, hsaving'⟩
    . cases htemp
    . exact h.temp task' unique saving' hsaving' htemp
  . intro left right unique saving saving' hsaving hsaving' htemp htemp'
    rcases update_some hsaving with ⟨-, rfl⟩ | ⟨-, hsaving⟩
    . cases htemp
    . rcases update_some hsaving' with ⟨-, rfl⟩ | ⟨-, hsaving'⟩
      . cases htemp'
      . exact h.own left right unique saving saving' hsaving hsaving' htemp htemp'

theorem consistent_writeTemp (h : self.Consistent toVecPretty) {task version : Nat} {store : Store}
    {json : List UInt8} (hsaving : self.saving task = some ⟨version, store, json, none⟩)
    : Consistent toVecPretty
        { self with
          tempCounter := self.tempCounter + 1
          temps := Function.update self.temps self.tempCounter (some json)
          saving := Function.update self.saving task
            (some ⟨version, store, json, some self.tempCounter⟩) } := by
  refine ⟨?_, h.done, ?_, ?_, h.file⟩
  . intro task' saving' hsaving'
    rcases update_some hsaving' with ⟨-, rfl⟩ | ⟨-, hsaving'⟩
    . exact ⟨(h.taken task _ hsaving).held, (h.taken task _ hsaving).json⟩
    . exact h.taken task' saving' hsaving'
  . intro task' unique saving' hsaving' htemp
    rcases update_some hsaving' with ⟨-, rfl⟩ | ⟨-, hsaving'⟩
    . cases htemp
      exact ⟨Nat.lt_succ_self _, Function.update_self _ _ _⟩
    . have htemp' := h.temp task' unique saving' hsaving' htemp
      refine ⟨Nat.lt_succ_of_lt htemp'.1, ?_⟩
      -- the counter is past every name in use
      dsimp only
      rw [Function.update_of_ne]
      . exact htemp'.2
      . exact Nat.ne_of_lt htemp'.1
  . intro left right unique saving saving' hleft hright htemp htemp'
    rcases update_some hleft with ⟨hl, rfl⟩ | ⟨-, hleft⟩
    . rcases update_some hright with ⟨hr, rfl⟩ | ⟨-, hright⟩
      . exact hl.symm.trans hr
      . cases htemp
        exact absurd (h.temp right _ saving' hright htemp').1 (Nat.lt_irrefl _)
    . rcases update_some hright with ⟨-, rfl⟩ | ⟨-, hright⟩
      . cases htemp'
        exact absurd (h.temp left _ saving hleft htemp).1 (Nat.lt_irrefl _)
      . exact h.own left right unique saving saving' hleft hright htemp htemp'

theorem consistent_rename (h : self.Consistent toVecPretty) {task unique : Nat} {saving : Saving}
    {bytes : List UInt8} (hsaving : self.saving task = some saving)
    (htemp : saving.temp = some unique) (hbytes : self.temps unique = some bytes)
    : Consistent toVecPretty
        { self with
          temps := Function.update self.temps unique none
          file := some bytes
          saving := Function.update self.saving task none
          completed := self.completed ++ [saving] } := by
  have hown := h.temp task unique saving hsaving htemp
  rw [hbytes] at hown
  cases hown.2
  refine ⟨?_, ?_, ?_, ?_, ?_⟩
  . intro task' saving' hsaving'
    exact h.taken task' saving' (update_none hsaving').2
  . intro done hmem
    rcases List.mem_append.mp hmem with hmem | hmem
    . exact h.done done hmem
    . rw [List.mem_singleton.mp hmem]
      exact h.taken task saving hsaving
  . intro task' unique' saving' hsaving' htemp'
    have hother := update_none hsaving'
    have hkept := h.temp task' unique' saving' hother.2 htemp'
    refine ⟨hkept.1, ?_⟩
    dsimp only
    rw [Function.update_of_ne]
    . exact hkept.2
    . intro heq
      rw [heq] at htemp'
      exact hother.1 (h.own task task' unique saving saving' hsaving hother.2 htemp htemp')
  . intro left right unique' saving' saving'' hleft hright
    exact h.own left right unique' saving' saving'' (update_none hleft).2 (update_none hright).2
  . intro last hlast
    rw [List.getLast?_concat] at hlast
    cases hlast
    rfl

theorem consistent_erase (h : self.Consistent toVecPretty) (task : Nat)
    : Consistent toVecPretty { self with saving := Function.update self.saving task none } := by
  refine ⟨?_, h.done, ?_, ?_, h.file⟩
  . intro task' saving' hsaving'
    exact h.taken task' saving' (update_none hsaving').2
  . intro task' unique saving' hsaving'
    exact h.temp task' unique saving' (update_none hsaving').2
  . intro left right unique saving saving' hleft hright
    exact h.own left right unique saving saving' (update_none hleft).2 (update_none hright).2

theorem step_consistent (h : self.Consistent toVecPretty)
    (hstep : self.step toVecPretty event = some next)
    : next.Consistent toVecPretty := by
  cases event with
  | write store =>
    have htaken := @step_taken toVecPretty self next (.write store) hstep
    cases hstep
    refine ⟨?_, ?_, h.temp, h.own, h.file⟩
    . intro task saving hsaving
      exact htaken (h.taken task saving hsaving)
    . intro done hmem
      exact htaken (h.done done hmem)
  | snapshot task env =>
    simp only [step] at hstep
    split at hstep
    . next hjson =>
      cases hstep
      exact consistent_snapshot h hjson
    . cases hstep
      exact h
    . cases hstep
  | writeTemp task =>
    simp only [step] at hstep
    split at hstep
    . next hsaving =>
      cases hstep
      exact consistent_writeTemp h hsaving
    . cases hstep
  | rename task =>
    simp only [step] at hstep
    split at hstep
    . next hsaving =>
      rw [Option.map_eq_some_iff] at hstep
      rcases hstep with ⟨bytes, hbytes, rfl⟩
      exact consistent_rename h hsaving rfl hbytes
    . cases hstep
  | fail task =>
    simp only [step, Option.map_eq_some_iff] at hstep
    rcases hstep with ⟨saving, -, rfl⟩
    exact consistent_erase h task

/--
No save that has returned took its snapshot of a later state than the last one.
-/
def LastIsRecent (self : Saves) : Prop :=
  ∀ done ∈ self.completed, ∃ last,
    self.completed.getLast? = some last ∧ self.HeldSince done.version last.store

/--
A save either returns, which is the step the order is about, or leaves those that have as they are.
-/
theorem step_completed (hstep : self.step toVecPretty event = some next)
    : next.completed = self.completed
        ∨ ∃ task saving, event = .rename task ∧ self.saving task = some saving
          ∧ next.completed = self.completed ++ [saving] := by
  cases event with
  | write store =>
    cases hstep
    exact .inl rfl
  | snapshot task env =>
    simp only [step] at hstep
    split at hstep <;> cases hstep <;> exact .inl rfl
  | writeTemp task =>
    simp only [step] at hstep
    split at hstep <;> cases hstep
    exact .inl rfl
  | rename task =>
    simp only [step] at hstep
    split at hstep
    . next hsaving =>
      rw [Option.map_eq_some_iff] at hstep
      rcases hstep with ⟨bytes, -, rfl⟩
      exact .inr ⟨task, _, rfl, hsaving, rfl⟩
    . cases hstep
  | fail task =>
    simp only [step, Option.map_eq_some_iff] at hstep
    rcases hstep with ⟨saving, -, rfl⟩
    exact .inl rfl

theorem step_lastIsRecent (hconsistent : self.Consistent toVecPretty) (h : self.LastIsRecent)
    (horder : self.InOrder event) (hstep : self.step toVecPretty event = some next)
    : next.LastIsRecent := by
  intro done hmem
  rcases step_completed hstep with heq | ⟨task, saving, rfl, hsaving, heq⟩
  . rw [heq] at hmem ⊢
    rcases h done hmem with ⟨last, hlast, hheld⟩
    exact ⟨last, hlast, step_heldSince hstep hheld⟩
  . rw [heq] at hmem ⊢
    refine ⟨saving, List.getLast?_concat, ?_⟩
    apply step_heldSince hstep
    rcases List.mem_append.mp hmem with hmem | hmem
    . exact horder saving hsaving done hmem
    . rw [List.mem_singleton.mp hmem]
      exact ⟨saving.version, Nat.le_refl _, (hconsistent.taken task saving hsaving).held⟩

theorem run_lastIsRecent {events : List SaveEvent} (hconsistent : self.Consistent toVecPretty)
    (h : self.LastIsRecent) (horder : RunInOrder toVecPretty events self)
    (hrun : run toVecPretty events self = some next)
    : next.Consistent toVecPretty ∧ next.LastIsRecent := by
  induction events generalizing self with
  | nil =>
    cases hrun
    exact ⟨hconsistent, h⟩
  | cons event events ih =>
    rw [run, Option.bind_eq_some_iff] at hrun
    rcases hrun with ⟨between, hstep, hrun⟩
    exact ih (step_consistent hconsistent hstep) (step_lastIsRecent hconsistent h horder.1 hstep)
      (horder.2 between hstep) hrun

/--
When the saves rename their files in the order of their snapshots, the snapshot file never goes back
behind a save that has returned: it holds a state at least as recent as the one that save has read.
-/
theorem completed_saves_stay {store : Store} {file : Option (List UInt8)} {events : List SaveEvent}
    {saves : Saves} (hrun : run toVecPretty events (new store file) = some saves)
    (horder : RunInOrder toVecPretty events (new store file))
    : ∀ done ∈ saves.completed,
        saves.states[done.version]? = some done.store
          ∧ saves.FileSince toVecPretty done.version := by
  intro done hmem
  have hinit : (new store file).LastIsRecent := by
    intro done hmem
    cases hmem
  rcases run_lastIsRecent (consistent_new store file) hinit horder hrun with ⟨hconsistent, hrecent⟩
  refine ⟨(hconsistent.done done hmem).held, ?_⟩
  rcases hrecent done hmem with ⟨last, hlast, hheld⟩
  have hlastMem : last ∈ saves.completed := List.mem_of_getLast? hlast
  rcases (hconsistent.done last hlastMem).json with ⟨env, hjson⟩
  exact ⟨last.store, env, last.json, hheld, hjson, hconsistent.file last hlast⟩

end

theorem snapshot_empty (env : Env) : Db.snapshot env ∅ = ⟨[]⟩ := by
  have hkeys : (env.order .keyspace (∅ : Store).keys).Perm [] := by
    have hperm := env.order_perm .keyspace (∅ : Store).keys
    rwa [Std.ExtTreeMap.keys_eq_nil_iff.mpr rfl] at hperm ⊢
  rw [Db.snapshot, hkeys.eq_nil]
  rfl

theorem snapshot_singleton (env : Env) (key value : String)
    : Db.snapshot env ((∅ : Store).insert key ⟨.str value, none⟩) = ⟨[⟨key, none, .str value⟩]⟩ := by
  have hkeys : ((∅ : Store).insert key ⟨.str value, none⟩).keys.Perm [key] := by
    rw [List.perm_ext_iff_of_nodup Std.ExtTreeMap.nodup_keys (List.nodup_singleton key)]
    intro key'
    rw [Std.ExtTreeMap.mem_keys, Std.ExtTreeMap.mem_insert, Std.LawfulEqCmp.compare_eq_iff_eq]
    simp [eq_comm]
  rw [Db.snapshot, ((env.order_perm _ _).trans hkeys).eq_singleton]
  simp [Store.live, LiveMap.live, Db.serialize, Entry.isLive, Entry.isExpired]

def emptyJson : List UInt8 := asBytes "\x7b\n  \"entries\": []\n\x7d"

def storedJson : List UInt8 :=
  asBytes ("\x7b\n  \"entries\": [\n    \x7b\n      \"key\": \"k\",\n      \"value\": \x7b\n"
    ++ "        \"Str\": \"v\"\n      \x7d\n    \x7d\n  ]\n\x7d")

/--
The JSON of an empty snapshot and of one that holds the string `v` at `k`.
-/
def jsonOf (snapshot : Snapshot) : Except String (List UInt8) :=
  if snapshot = ⟨[]⟩ then
    .ok emptyJson
  else if snapshot = ⟨[⟨"k", none, .str "v"⟩]⟩ then
    .ok storedJson
  else
    .error ""

theorem jsonOf_snapshot_empty (env : Env) : jsonOf (Db.snapshot env ∅) = .ok emptyJson := by
  rw [snapshot_empty]
  rfl

theorem jsonOf_snapshot_stored (env : Env)
    : jsonOf (Db.snapshot env ((∅ : Store).insert "k" ⟨.str "v", none⟩)) = .ok storedJson := by
  rw [snapshot_singleton]
  rfl

/--
Two saves with a write between their snapshots: the file is the one of the save which renames last.
-/
theorem run_two_saves (env : Env) (first second : Nat) (h : first = 0 ∧ second = 1 ∨ first = 1 ∧ second = 0)
    : let written := (∅ : Store).insert "k" ⟨.str "v", none⟩
      let older : Saving := ⟨0, ∅, emptyJson, some first⟩
      let newer : Saving := ⟨1, written, storedJson, some second⟩
      (run jsonOf
          [.snapshot 0 env, .write written, .snapshot 1 env, .writeTemp first, .rename first,
            .writeTemp second, .rename second] (new ∅ none)).map
          (fun saves => (saves.states, saves.file, saves.completed))
        =
      some ([∅, written],
        if first = 0 then (some storedJson, [older, newer]) else (some emptyJson, [newer, older])) := by
  intro written older newer
  have hsnapshot := jsonOf_snapshot_stored env
  rcases h with ⟨rfl, rfl⟩ | ⟨rfl, rfl⟩
  . simp [run, step, new, states, jsonOf_snapshot_empty, hsnapshot, Function.update, older, newer,
      written]
  . simp [run, step, new, states, jsonOf_snapshot_empty, hsnapshot, Function.update, older, newer,
      written]

/--
A save that has returned is undone: the file is as it was before the write that the save has read.
-/
theorem save_undone_by_older
    : let env := envAt startOfClock
      ∃ saves,
        run jsonOf
            [.snapshot 0 env, .write ((∅ : Store).insert "k" ⟨.str "v", none⟩), .snapshot 1 env,
              .writeTemp 1, .rename 1, .writeTemp 0, .rename 0] (new ∅ none) = some saves
          ∧ ∃ done ∈ saves.completed, ¬ saves.FileSince jsonOf done.version := by
  intro env
  have hmap := run_two_saves env 1 0 (.inr ⟨rfl, rfl⟩)
  simp only [Option.map_eq_some_iff, if_neg (Nat.succ_ne_zero 0)] at hmap
  rcases hmap with ⟨saves, hrun, heq⟩
  rw [Prod.mk.injEq, Prod.mk.injEq] at heq
  rcases heq with ⟨hstates, hfile, hcompleted⟩
  refine ⟨saves, hrun, ⟨1, (∅ : Store).insert "k" ⟨.str "v", none⟩, storedJson, some 0⟩, ?_, ?_⟩
  . rw [hcompleted]
    exact List.mem_cons_self
  . rintro ⟨store, env', json, ⟨later, hle, hstate⟩, hjson, hfile'⟩
    rw [hstates] at hstate
    have hlater : later = 1 := by
      exact Nat.le_antisymm (Nat.le_of_lt_succ (List.getElem?_eq_some_iff.mp hstate).1) hle
    subst hlater
    cases hstate
    rw [jsonOf_snapshot_stored] at hjson
    cases hjson
    rw [hfile, Option.some.injEq, emptyJson, storedJson, asBytes_inj] at hfile'
    exact absurd hfile' (by decide)

theorem completed_saves_stay_newer
    : let env := envAt startOfClock
      ∃ saves,
        run jsonOf
            [.snapshot 0 env, .write ((∅ : Store).insert "k" ⟨.str "v", none⟩), .snapshot 1 env,
              .writeTemp 0, .rename 0, .writeTemp 1, .rename 1] (new ∅ none) = some saves
          ∧ saves.FileSince jsonOf 1 := by
  intro env
  have hmap := run_two_saves env 0 1 (.inl ⟨rfl, rfl⟩)
  simp only [Option.map_eq_some_iff, if_pos] at hmap
  rcases hmap with ⟨saves, hrun, heq⟩
  rw [Prod.mk.injEq, Prod.mk.injEq] at heq
  have horder : RunInOrder jsonOf
      [.snapshot 0 env, .write ((∅ : Store).insert "k" ⟨.str "v", none⟩), .snapshot 1 env,
        .writeTemp 0, .rename 0, .writeTemp 1, .rename 1] (new ∅ none) := by
    have hsnapshot := jsonOf_snapshot_stored env
    simp [RunInOrder, InOrder, step, new, states, jsonOf_snapshot_empty, hsnapshot, Function.update]
    exact ⟨1, by simp, rfl⟩
  let newer : Saving := ⟨1, (∅ : Store).insert "k" ⟨.str "v", none⟩, storedJson, some 1⟩
  have hmem : newer ∈ saves.completed := by
    rw [heq.2.2]
    exact List.mem_cons_of_mem _ List.mem_cons_self
  exact ⟨saves, hrun, (completed_saves_stay hrun horder newer hmem).2⟩

end Saves
end RedisClone
