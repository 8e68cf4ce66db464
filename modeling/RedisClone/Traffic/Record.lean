import RedisClone.Keyspace.Collection
import RedisClone.Lib.Cells
import RedisClone.Traffic.AtKey

/-!
This module contains what a hash is to the clients that share it: a record whose fields have nothing to do
with each other. Each field is a cell of its own, whatever happens to the others at the same time.
-/

namespace RedisClone

open Store

/--
The field of a command that names one.
-/
def Command.field : Command → Option String
  | .hSet _ field _ | .hGet _ field | .hDel _ field | .hExists _ field | .hIncrBy _ field _ => some field
  | _ => none

/--
The key of a command on a hash.
-/
def Command.recordKey : Command → Option String
  | .hSet key _ _ | .hGet key _ | .hDel key _ | .hGetAll key | .hKeys key | .hVals key | .hLen key
  | .hExists key _ | .hIncrBy key _ _ => some key
  | _ => none

/--
What `HINCRBY` makes of a cell.
-/
def incremented (cell : Option String) (delta : Int64) : Except StoreError Int64 :=
  (Db.hashInteger cell).bind fun current =>
    match checkedAdd current delta with
    | some next => .ok next
    | none => .error .overflow

/--
A command on a cell, which is empty or holds a text, with its reply.
-/
def Command.onCell (cell : Option String) : Command → Option String × String
  | .hSet _ _ value => (some value, Reply.bit cell.isNone)
  | .hGet _ _ => (cell, Reply.optional (.ok cell))
  | .hDel _ _ => (none, Reply.bit cell.isSome)
  | .hExists _ _ => (cell, Reply.bit cell.isSome)
  | .hIncrBy _ _ delta =>
    match incremented cell delta with
    | .ok next => (some (toString next), Resp.integer next)
    | .error error => (cell, Resp.error error.toString)
  | _ => (cell, "")

abbrev Fields := Cells String String

/--
A command on a record, with its reply. Those on one field see nothing but its cell.
-/
def Command.onFields (env : Env) (fields : Fields) (command : Command) : Fields × String :=
  match command.field with
  | some field =>
    let (cell, reply) := command.onCell fields[field]?
    (fields.put field cell, reply)
  | none =>
    match command with
    | .hGetAll key =>
      (fields, Resp.array ((env.order (.value key) fields.keys).flatMap fun field =>
        (fields[field]?.map fun value => [field, value]).getD []))
    | .hKeys key => (fields, Resp.array (env.order (.value key) fields.keys))
    | .hVals key =>
      (fields, Resp.array ((env.order (.value key) fields.keys).filterMap fun field => fields[field]?))
    | .hLen _ => (fields, Reply.number fields.size)
    | _ => (fields, "")

def records : Collection Fields where
  wrap fields := .hash ⟨fields⟩
  empty := ∅
  isEmpty := Std.ExtTreeMap.isEmpty
  isEmpty_iff _ := Std.ExtTreeMap.isEmpty_iff

variable {key : String} {command : Command}

theorem onFields_of_field {field : String} (h : command.field = some field) (env : Env)
    (fields : Fields)
    : command.onFields env fields
        =
      let changed := command.onCell fields[field]?
      (fields.put field changed.1, changed.2) := by
  simp only [Command.onFields, h]

/--
A command leaves the fields alone that it does not name.
-/
theorem getElem?_onFields {field : String} (h : command.field ≠ some field) (env : Env)
    (fields : Fields)
    : (command.onFields env fields).1[field]? = fields[field]? := by
  cases hother : command.field with
  | some other =>
    rw [onFields_of_field hother]
    dsimp only
    rw [Cells.getElem?_put, if_neg]
    rintro rfl
    exact h hother
  | none =>
    unfold Command.onFields
    rw [hother]
    dsimp only
    split <;> rfl

theorem asHash_wrap (fields : Fields) : (records.wrap fields).asHash = .ok ⟨fields⟩ := by
  rfl

/--
A query of a record, which is answered from an empty one if the key is missing.
-/
theorem readOp_records {α : Type} {absent result : α} {read : RHash → α} (fields : Fields)
    (hresult : read ⟨fields⟩ = result) (habsent : absent = read .new)
    (encode : Except StoreError α → String)
    : (KeyOp.readOp (.ok absent) fun entry => entry.value.asHash.map read).reply encode
          (records.entry fields)
        =
      (records.entry fields, encode (.ok result)) := by
  apply KeyOp.reply_eq
  apply records.readOp_entry
  . rw [← hresult]
    rfl
  . rintro rfl
    rw [habsent, ← hresult]
    rfl

theorem hincrOn_wrap (field : String) (delta : Int64) (fields : Fields)
    : Db.hincrOn field delta (records.wrap fields)
        =
      (incremented fields[field]? delta).map fun next =>
        (records.wrap (fields.put field (some (toString next))), next) := by
  unfold Db.hincrOn incremented
  rw [asHash_wrap]
  dsimp only [Except.bind, RHash.hget]
  cases Db.hashInteger fields[field]? with
  | error error => rfl
  | ok current =>
    dsimp only [Except.bind]
    cases checkedAdd current delta <;> rfl

theorem incremented_none (delta : Int64) : incremented none delta = .ok delta := by
  unfold incremented Db.hashInteger
  dsimp only [Except.bind]
  rw [checkedAdd_zero_left]

/--
At a key that holds a record, a command on one field does what it does to the cell.
-/
theorem keyOp_onCell (env : Env) {field : String} (hrecord : command.recordKey = some key)
    (hfield : command.field = some field) (fields : Fields)
    : let changed := command.onCell fields[field]?
      ∃ op, command.keyOp env = some (key, op)
        ∧ op (records.entry fields) = (records.entry (fields.put field changed.1), changed.2) := by
  cases command
  all_goals simp only [Command.field, Option.some.injEq, reduceCtorEq] at hfield
  all_goals
    simp only [Command.recordKey, Option.some.injEq] at hrecord
    subst hfield hrecord
    refine ⟨_, rfl, ?_⟩
  case hSet key field value =>
    have hact : Db.hsetOn field value (records.wrap fields)
        = .ok (records.wrap (fields.put field (some value)), fields[field]?.isNone) := by
      rfl
    exact KeyOp.reply_eq (records.updateOp_entry hact (fields.isEmpty_put field value)) Reply.bool
  case hGet key field =>
    dsimp only [Command.onCell]
    rw [Cells.put_self]
    exact readOp_records fields rfl (by simp [RHash.hget, RHash.new]) Reply.optional
  case hDel key field =>
    have hact : Db.hdelOn field (records.wrap fields)
        = .ok (records.wrap (fields.put field none), fields[field]?.isSome,
          records.isEmpty (fields.put field none)) := by
      rfl
    refine KeyOp.reply_eq (records.removeOp_entry hact ?_) Reply.bool
    rintro rfl
    refine ⟨?_, by simp [records]⟩
    exact Std.ExtTreeMap.erase_empty
  case hExists key field =>
    dsimp only [Command.onCell]
    rw [Cells.put_self, ← Std.ExtTreeMap.contains_eq_isSome_getElem?]
    exact readOp_records fields rfl (by simp [RHash.hexists, RHash.new]) Reply.bool
  case hIncrBy key field delta =>
    have hact := hincrOn_wrap field delta fields
    dsimp only [Command.onCell]
    cases hnext : incremented fields[field]? delta with
    | ok next =>
      rw [hnext] at hact
      exact KeyOp.reply_eq (records.updateOp_entry hact (fields.isEmpty_put field _)) Reply.signed
    | error error =>
      rw [hnext] at hact
      have hnonempty : records.isEmpty fields = false := by
        rw [Bool.eq_false_iff]
        intro hempty
        rw [(records.isEmpty_iff fields).mp hempty] at hnext
        simp [records, incremented_none] at hnext
      dsimp only
      rw [Cells.put_self]
      exact KeyOp.reply_eq (records.updateOp_entry_error hact hnonempty) Reply.signed

theorem order_keys_empty (env : Env) (key : String)
    : env.order (.value key) (∅ : Fields).keys = [] := by
  exact List.perm_nil.mp (env.order_perm (.value key) (∅ : Fields).keys)

theorem flatMap_hgetall (order : List String → List String) (fields : Fields)
    : ((RHash.mk fields).hgetall order).flatMap (fun pair => [pair.1, pair.2])
        =
      (order fields.keys).flatMap fun field =>
        (fields[field]?.map fun value => [field, value]).getD [] := by
  unfold RHash.hgetall
  dsimp only
  induction order fields.keys with
  | nil => rfl
  | cons field rest ih =>
    rw [List.flatMap_cons, List.filterMap_cons]
    cases fields[field]? with
    | none => exact ih
    | some value => exact congrArg ([field, value] ++ ·) ih

/--
At a key that holds a record, a command on it does what it does to the record.
-/
theorem keyOp_onFields (env : Env) (hrecord : command.recordKey = some key) (fields : Fields)
    : ∃ op, command.keyOp env = some (key, op)
        ∧ op (records.entry fields)
          = (records.entry (command.onFields env fields).1, (command.onFields env fields).2) := by
  cases hfield : command.field with
  | some field =>
    rw [onFields_of_field hfield]
    exact keyOp_onCell env hrecord hfield fields
  | none =>
    cases command
    all_goals simp only [Command.recordKey, Option.some.injEq, reduceCtorEq] at hrecord
    all_goals simp only [Command.field, reduceCtorEq] at hfield
    all_goals
      subst hrecord
      refine ⟨_, rfl, ?_⟩
      dsimp only [Command.onFields, Command.field]
    case hGetAll key =>
      refine readOp_records fields (flatMap_hgetall _ fields) ?_ Reply.array
      rw [flatMap_hgetall]
      exact congrArg (List.flatMap _) (order_keys_empty env key).symm
    case hKeys key =>
      refine readOp_records fields rfl ?_ Reply.array
      exact (order_keys_empty env key).symm
    case hVals key =>
      refine readOp_records fields rfl ?_ Reply.array
      exact congrArg (List.filterMap _) (order_keys_empty env key).symm
    case hLen key => exact readOp_records fields rfl rfl Reply.count

namespace Traffic

/--
A record that answers the commands on a hash.
-/
def record : Linearize.Object Fields ClientRequest String := commands Command.onFields

/--
A cell that answers the commands on one field.
-/
def cell : Linearize.Object (Option String) ClientRequest String := commands fun _ => Command.onCell

/--
Requests on one field of the hash at a key.
-/
def isRequestOnField (key field : String) (request : ClientRequest) : Bool :=
  isRequestOn Command.field field request && isRequestOn Command.recordKey key request

theorem standsFor_record (key : String)
    : StandsFor record key (isRequestOn Command.recordKey key)
        fun fields _ found => found = records.entry fields := by
  apply standsFor_commands
  . intro fields now
    exact records.filter_entry now fields
  . intro tokens command env fields _ hkey
    exact keyOp_onFields env hkey fields

/--
The fields of a record are cells that do not touch each other.
-/
theorem part_cell (field : String)
    : record.Part cell (isRequestOn Command.field field) fun fields => fields[field]? := by
  constructor
  . intro request fields hshown
    obtain ⟨command, hparse, hfield⟩ := isRequestOn_iff.mp hshown
    have hstep := onFields_of_field hfield request.env fields
    rw [record, cell, call_commands hparse, call_commands hparse, hstep]
    refine ⟨?_, rfl⟩
    dsimp only
    rw [Cells.getElem?_put, if_pos rfl]
  . intro request fields hshown
    unfold isRequestOn at hshown
    simp only [record, commands]
    cases hparse : Command.parse request.tokens with
    | error error => rfl
    | ok command =>
      have hfield : command.field ≠ some field := by
        simpa [hparse] using hshown
      exact getElem?_onFields hfield request.env fields

variable {fields : Fields} {events : List TrafficEvent} {start : Instant} {db : Database}
  {last : Traffic} {answers : List (ClientRequest × String)}

/--
A hash is a linearizable record. Whatever other keys the clients use at the same time, every command on it is
answered as by a record that serves these commands one after the other, and the key holds its fields in the
end.
-/
theorem hash_is_record (hinitial : live start db.store key = records.entry fields)
    (huses : ∀ event ∈ events, Uses (isRequestOn Command.recordKey key) key event)
    (hrun : system.run events (new start db) = some (last, answers))
    : let requests := (events.filterMap TrafficEvent.clientRequest).filter
        (isRequestOn Command.recordKey key)
      (answers.filter fun answer => isRequestOn Command.recordKey key answer.1)
          = record.answers requests fields
        ∧ live last.clock last.db.store key = records.entry (record.after requests fields) := by
  exact (standsFor_record key).run hinitial huses hrun

/--
Each field of a hash is a linearizable cell of its own. The clients of one field are answered as if there
were no other field and no client of another one, and in the end the field holds what their cell holds.
-/
theorem field_is_cell (hinitial : live start db.store key = records.entry fields)
    (huses : ∀ event ∈ events, Uses (isRequestOn Command.recordKey key) key event)
    (hrun : system.run events (new start db) = some (last, answers)) (field : String)
    : let requests := (events.filterMap TrafficEvent.clientRequest).filter
        (isRequestOnField key field)
      (answers.filter fun answer => isRequestOnField key field answer.1)
          = cell.answers requests fields[field]?
        ∧ ∃ fields', live last.clock last.db.store key = records.entry fields'
          ∧ fields'[field]? = cell.after requests fields[field]? := by
  intro requests
  have ⟨hanswers, hholds⟩ := (standsFor_record key).run hinitial huses hrun
  have hrequests : requests = ((events.filterMap TrafficEvent.clientRequest).filter
      (isRequestOn Command.recordKey key)).filter (isRequestOn Command.field field) := by
    rw [List.filter_filter]
    rfl
  have ⟨hcell, hafter⟩ := (part_cell field).run ((events.filterMap TrafficEvent.clientRequest).filter
    (isRequestOn Command.recordKey key)) fields
  rw [← hanswers, List.filter_filter] at hcell
  rw [hrequests]
  exact ⟨hcell, _, hholds, hafter⟩

/-
Two clients that use a hash, partly the same field of it, and a third one that writes to another key.
-/

def profile : List TrafficEvent :=
  [.request 0 (envAt startOfClock) ["HSET", "user", "name", "x"],
    .request 1 (envAt startOfClock) ["HINCRBY", "user", "visits", "1"], .finish 0 startOfClock,
    .request 2 (envAt startOfClock) ["SET", "k", "v"], .finish 1 startOfClock,
    .request 0 (envAt startOfClock) ["HGET", "user", "visits"]]

theorem profile_uses
    : ∀ event ∈ profile, Uses (isRequestOn Command.recordKey "user") "user" event := by
  simp only [profile, List.forall_mem_cons, List.not_mem_nil, false_implies, implies_true, and_true]
  refine ⟨?_, ?_, ?_, ?_, ?_, ?_⟩
  all_goals
    intro request hrequest
    cases hrequest
  . left
    rfl
  . left
    rfl
  . right
    intro command hcommand
    cases hcommand
    exact ⟨by simp, .inr (by simp [Command.namedKeys])⟩
  . left
    rfl

theorem exists_run_profile
    : ∃ last answers,
        system.run profile (new startOfClock (.new startOfClock)) = some (last, answers) := by
  have hrun : (system.run profile (new startOfClock (.new startOfClock))).isSome = true := by
    decide
  obtain ⟨⟨last, answers⟩, hrun⟩ := Option.isSome_iff_exists.mp hrun
  exact ⟨last, answers, hrun⟩

theorem hash_is_record_profile
    : ∃ last answers,
        system.run profile (new startOfClock (.new startOfClock)) = some (last, answers)
          ∧ let requests := (profile.filterMap TrafficEvent.clientRequest).filter
              (isRequestOn Command.recordKey "user")
            (answers.filter fun answer => isRequestOn Command.recordKey "user" answer.1)
                = record.answers requests ∅
              ∧ live last.clock last.db.store "user" = records.entry (record.after requests ∅) := by
  obtain ⟨last, answers, hrun⟩ := exists_run_profile
  exact ⟨last, answers, hrun, hash_is_record rfl profile_uses hrun⟩

theorem field_is_cell_profile
    : ∃ last answers,
        system.run profile (new startOfClock (.new startOfClock)) = some (last, answers)
          ∧ let requests := (profile.filterMap TrafficEvent.clientRequest).filter
              (isRequestOnField "user" "visits")
            (answers.filter fun answer => isRequestOnField "user" "visits" answer.1)
                = cell.answers requests none
              ∧ ∃ fields', live last.clock last.db.store "user" = records.entry fields'
                ∧ fields'["visits"]? = cell.after requests none := by
  obtain ⟨last, answers, hrun⟩ := exists_run_profile
  exact ⟨last, answers, hrun, @field_is_cell _ ∅ _ _ _ _ _ rfl profile_uses hrun "visits"⟩

end Traffic
end RedisClone
