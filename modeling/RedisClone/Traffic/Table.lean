import RedisClone.Lib.Cells
import RedisClone.Traffic.Register

/-!
This module contains what a group of strings is to the clients that share it: a table, whose cells a
command reads or changes at one point in time, however many they are. A condition on several cells that
every request keeps is never seen broken.
-/

namespace RedisClone

open Store

abbrev Table := Cells String String

namespace Table

def setAll (table : Table) (pairs : List (String × String)) : Table :=
  pairs.foldl (fun table (key, value) => table.insert key value) table

def eraseAll (table : Table) (keys : List String) : Table :=
  keys.foldl (fun table key => table.erase key) table

def row (table : Table) (keys : List String) : List (Option String) := keys.map fun key => table[key]?

end Table

/--
The keys of a command on a table.
-/
def Command.tableKeys : Command → Option (List String)
  | .mSet pairs => some (pairs.map Prod.fst)
  | .mGet names | .del names | .existsKeys names => some names
  | .rename key newKey => some [key, newKey]
  | command => command.registerKey.map fun key => [key]

/--
A command on a table, with its reply. `DEL` is answered with the number of cells that are not there any
more, `EXISTS` counts a key as often as it is named.
-/
def Command.onTable (table : Table) : Command → Table × String
  | .mSet pairs => (table.setAll pairs, Resp.simpleString "OK")
  | .mGet names => (table, Resp.nullableArray (table.row names))
  | .del names =>
    let rest := table.eraseAll names
    (rest, Reply.number (table.size - rest.size))
  | .existsKeys names => (table, Reply.number (table.row names).reduceOption.length)
  | .rename key newKey =>
    (table[key]?.elim table fun value => (table.erase key).insert newKey value,
      Reply.renamed table[key]?.isSome)
  | command =>
    command.registerKey.elim (table, "") fun key =>
      let registered := command.onRegister table[key]?
      (table.put key registered.1, registered.2)

/--
What the keyspace holds for a table, at the keys of a group.
-/
def Table.IsAt (group : String → Bool) (table : Table) (found : String → Option Entry) : Prop :=
  ∀ key, group key = true → found key = registerEntry table[key]?

section

variable {group : String → Bool} {table : Table} {now : Instant} {store : Store} {env : Env}
  {command : Command} {db : Database} {keys : List String}

namespace Table

/--
A cell that is written in the table and at its key.
-/
theorem IsAt.put (h : table.IsAt group (live now store)) (key : String) (cell : Option String)
    : IsAt group (table.put key cell) (live now (LiveMap.put store key (registerEntry cell))) := by
  intro other hother
  unfold live
  rw [LiveMap.live_put, Cells.getElem?_put]
  split
  . exact filter_registerEntry now cell
  . exact h other hother

theorem IsAt.mset (h : table.IsAt group (live now store)) (pairs : List (String × String))
    : (table.setAll pairs).IsAt group (live now (Db.mset pairs store)) := by
  unfold setAll Db.mset
  induction pairs generalizing table store with
  | nil => exact h
  | cons pair pairs ih => exact ih (h.put pair.1 (some pair.2))

theorem IsAt.evict (h : table.IsAt group (live now store)) (key : String)
    : table.IsAt group (live now (liveEntry now key store).1) := by
  intro other hother
  rw [live_liveEntry]
  exact h other hother

/--
Every cell that `DEL` empties is counted once.
-/
theorem IsAt.del (h : table.IsAt group (live now store)) (hkeys : ∀ key ∈ keys, group key = true)
    : (table.eraseAll keys).IsAt group (live now (Db.del now keys store).1)
        ∧ (Db.del now keys store).2 = table.size - (table.eraseAll keys).size := by
  have hsizes : (table.eraseAll keys).IsAt group (live now (Db.del now keys store).1)
      ∧ (Db.del now keys store).2 + (table.eraseAll keys).size = 0 + table.size := by
    unfold eraseAll Db.del
    generalize 0 = removed
    induction keys generalizing table store removed with
    | nil => exact ⟨h, rfl⟩
    | cons key keys ih =>
      rw [List.forall_mem_cons] at hkeys
      have hfound := h key hkeys.1
      have hevict := h.evict key
      simp only [List.foldl_cons]
      cases hcell : table[key]? with
      | none =>
        rw [hcell] at hfound
        have hgone : table.erase key = table := by
          have hput := Cells.put_self table key
          rwa [hcell] at hput
        rw [liveEntry_eq, hfound] at hevict ⊢
        rw [hgone]
        exact ih hevict hkeys.2 removed
      | some value =>
        rw [hcell] at hfound
        have hsize := Cells.size_put_none hcell
        have ⟨hrest, hcount⟩ := ih (hevict.put key none) hkeys.2 (removed + 1)
        rw [liveEntry_eq, hfound] at hrest hcount ⊢
        refine ⟨hrest, hcount.trans ?_⟩
        omega
  exact ⟨hsizes.1, by omega⟩

theorem IsAt.rename {key : String} (h : table.IsAt group (live now store)) (hkey : group key = true)
    (newKey : String)
    : let next : Table := table[key]?.elim table fun value => (table.erase key).insert newKey value
      next.IsAt group (live now (Db.rename now key newKey store).1)
        ∧ (Db.rename now key newKey store).2 = table[key]?.isSome := by
  have hfound := h key hkey
  have hevict := h.evict key
  cases hcell : table[key]? with
  | none =>
    rw [hcell] at hfound
    unfold Db.rename
    rw [liveEntry_eq, hfound] at hevict ⊢
    exact ⟨hevict, rfl⟩
  | some value =>
    rw [hcell] at hfound
    have hmoved := (hevict.put key none).put newKey (some value)
    unfold Db.rename
    rw [liveEntry_eq, hfound] at hmoved ⊢
    exact ⟨hmoved, rfl⟩

theorem IsAt.row (h : table.IsAt group (live now store)) (hkeys : ∀ key ∈ keys, group key = true)
    : Db.mget now keys store = table.row keys
        ∧ Db.existsCount now keys store = (table.row keys).reduceOption.length := by
  unfold Db.mget Db.existsCount Table.row
  induction keys with
  | nil => exact ⟨rfl, rfl⟩
  | cons key keys ih =>
    rw [List.forall_mem_cons] at hkeys
    obtain ⟨hrow, hcount⟩ := ih hkeys.2
    rw [List.map_cons, List.map_cons, List.filter_cons, h key hkeys.1, hrow]
    cases table[key]? with
    | none => exact ⟨rfl, hcount⟩
    | some value => exact ⟨rfl, congrArg (· + 1) hcount⟩

theorem onTable_of_registerKey {key : String} (h : command.registerKey = some key) (table : Table)
    : command.tableKeys = some [key]
        ∧ command.onTable table
          = (table.put key (command.onRegister table[key]?).1, (command.onRegister table[key]?).2) := by
  cases command
  case mSet | mGet | del | existsKeys | rename => cases h
  all_goals
    simp only [Command.tableKeys, Command.onTable, h, Option.map_some, Option.elim_some, and_self]

/--
A command on cells of the group does to the keyspace what it does to the table.
-/
theorem IsAt.execute (h : table.IsAt group (live env.now db.store))
    (hkeys : command.tableKeys = some keys) (hgroup : ∀ key ∈ keys, group key = true)
    : let next := command.onTable table
      next.1.IsAt group (live env.now (execute env command db).1.store)
        ∧ (execute env command db).2 = next.2 := by
  cases hregister : command.registerKey with
  | some key =>
    obtain ⟨op, hop, hstep⟩ := keyOp_onRegister env hregister table[key]?
    obtain ⟨hone, htable⟩ := onTable_of_registerKey hregister table
    rw [hone, Option.some.injEq] at hkeys
    subst hkeys
    have hfound := h key (hgroup key (List.mem_singleton_self key))
    rw [htable, execute_eq_keyOp hop]
    unfold Database.run
    rw [atKey_eq, hfound, hstep]
    exact ⟨h.put key _, rfl⟩
  | none =>
    cases command
    case mSet pairs => exact ⟨h.mset pairs, rfl⟩
    case mGet names =>
      cases hkeys
      exact ⟨h, congrArg Resp.nullableArray (h.row hgroup).1⟩
    case del names =>
      cases hkeys
      obtain ⟨hrest, hcount⟩ := h.del hgroup
      exact ⟨hrest, congrArg Reply.number hcount⟩
    case existsKeys names =>
      cases hkeys
      exact ⟨h, congrArg Reply.number (h.row hgroup).2⟩
    case rename key newKey =>
      cases hkeys
      obtain ⟨hrest, hcount⟩ := h.rename (hgroup key (by simp)) newKey
      exact ⟨hrest, congrArg Reply.renamed hcount⟩
    all_goals
      simp [Command.tableKeys, hregister] at hkeys

end Table

end

namespace Traffic

variable {group : String → Bool} {cells : Table}

def table : Linearize.Object Table ClientRequest String := commands fun _ => Command.onTable

/--
Requests for cells of the group.
-/
def isRequestAmong (group : String → Bool) (request : ClientRequest) : Bool :=
  match Command.parse request.tokens with
  | .ok command => command.tableKeys.any fun keys => keys.all group
  | .error _ => false

/--
Requests for cells of the group, and requests that do not write to any of its keys.
-/
def UsesGroup (group : String → Bool) (event : TrafficEvent) : Prop :=
  ∀ request, event.clientRequest = some request
    → isRequestAmong group request = true
      ∨ ∀ key, group key = true → LeavesAlone key request.tokens

theorem isRequestAmong_iff {request : ClientRequest}
    : isRequestAmong group request = true
        ↔ ∃ command keys, Command.parse request.tokens = .ok command
          ∧ command.tableKeys = some keys ∧ ∀ key ∈ keys, group key = true := by
  unfold isRequestAmong
  cases hparse : Command.parse request.tokens with
  | error error => simp
  | ok command => simp [Option.any_eq_true]

theorem refines_table (group : String → Bool)
    : Linearize.Refines (system.watch (isRequestAmong group)) table (UsesGroup group)
        (fun traffic cells => cells.IsAt group (live traffic.clock traffic.db.store))
        fun _ reply reply' => reply = reply' := by
  apply refines_of_live fun (cells : Table) _ found => cells.IsAt group found
  . intro cells t t' found h _ key hkey
    dsimp only
    rw [h key hkey, filter_registerEntry]
  . intro request db cells huses hother h key hkey
    have halone := huses.resolve_left (by simp [hother]) key hkey
    exact (live_firstLock_of_leavesAlone halone db).trans (h key hkey)
  . intro request db cells _ hshown h
    obtain ⟨command, keys, hparse, hkeys, hgroup⟩ := isRequestAmong_iff.mp hshown
    obtain ⟨hfirst, hreply, -⟩ := firstLock_of_parse_ok request.env db hparse
    obtain ⟨hnext, hanswer⟩ := h.execute hkeys hgroup
    rw [table, call_commands hparse]
    refine ⟨?_, hreply.trans hanswer⟩
    intro key hkey
    rw [hfirst.store key]
    exact hnext key hkey

/--
A group of strings is a linearizable table. Commands on several of its cells read or change all of them at
one point in time.
-/
theorem strings_are_table {events : List TrafficEvent} {start : Instant} {db : Database}
    {last : Traffic} {answers : List (ClientRequest × String)}
    (hinitial : cells.IsAt group (live start db.store))
    (huses : ∀ event ∈ events, UsesGroup group event)
    (hrun : system.run events (new start db) = some (last, answers))
    : let requests := (events.filterMap TrafficEvent.clientRequest).filter (isRequestAmong group)
      (answers.filter fun answer => isRequestAmong group answer.1) = table.answers requests cells
        ∧ (table.after requests cells).IsAt group (live last.clock last.db.store) := by
  have ⟨hholds, hanswers⟩ :=
    (refines_table group).run_watch clientRequest_of_step huses hinitial hrun
  exact ⟨hanswers.eq, hholds⟩

/-
Clients that write two cells at once, in any order, and clients that read them.
-/

def pairing : List TrafficEvent :=
  [.request 0 (envAt startOfClock) ["MSET", "a", "1", "b", "1"],
    .request 1 (envAt startOfClock) ["MGET", "a", "b"],
    .request 2 (envAt startOfClock) ["MSET", "b", "2", "a", "2"], .finish 2 startOfClock,
    .request 3 (envAt startOfClock) ["INCR", "n"], .finish 0 startOfClock,
    .request 1 (envAt startOfClock) ["MGET", "b", "a"]]

def isPaired (key : String) : Bool := key == "a" || key == "b"

theorem pairing_uses : ∀ event ∈ pairing, UsesGroup isPaired event := by
  simp only [pairing, List.forall_mem_cons, List.not_mem_nil, false_implies, implies_true, and_true]
  refine ⟨?_, ?_, ?_, ?_, ?_, ?_, ?_⟩
  all_goals
    intro request hrequest
    cases hrequest
  . left
    rfl
  . left
    rfl
  . left
    rfl
  . right
    intro key hkey command hcommand
    cases hcommand
    refine ⟨by simp, .inr ?_⟩
    rw [isPaired, Bool.or_eq_true, beq_iff_eq, beq_iff_eq] at hkey
    rcases hkey with rfl | rfl
    all_goals simp [Command.namedKeys]
  . left
    rfl

theorem exists_run_pairing
    : ∃ last answers,
        system.run pairing (new startOfClock (.new startOfClock)) = some (last, answers) := by
  have hrun : (system.run pairing (new startOfClock (.new startOfClock))).isSome = true := by
    decide
  obtain ⟨⟨last, answers⟩, hrun⟩ := Option.isSome_iff_exists.mp hrun
  exact ⟨last, answers, hrun⟩

theorem isAt_new (group : String → Bool)
    : Table.IsAt group ∅ (live startOfClock (Database.new startOfClock).store) := by
  intro key _
  rfl

theorem strings_are_table_pairing
    : ∃ last answers,
        system.run pairing (new startOfClock (.new startOfClock)) = some (last, answers)
          ∧ let requests := (pairing.filterMap TrafficEvent.clientRequest).filter
              (isRequestAmong isPaired)
            (answers.filter fun answer => isRequestAmong isPaired answer.1) = table.answers requests ∅
              ∧ (table.after requests ∅).IsAt isPaired (live last.clock last.db.store) := by
  obtain ⟨last, answers, hrun⟩ := exists_run_pairing
  exact ⟨last, answers, hrun, strings_are_table (isAt_new isPaired) pairing_uses hrun⟩

end Traffic
end RedisClone
