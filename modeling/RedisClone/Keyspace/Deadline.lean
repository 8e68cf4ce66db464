import RedisClone.Keyspace.Commute

/-!
This module contains the proof that only the right commands touch a deadline: updates in place keep
it, overwriting commands drop it, `RENAME` carries it along, and nothing reaches the keys that a
command does not name.
-/

namespace RedisClone

open Store

/--
The key of a command that updates a value in place.
-/
def Command.updatesInPlace : Command → Option String
  | .incrBy key _ | .append key _ | .lPush key _ | .rPush key _ | .lPop key | .rPop key
  | .lSet key _ _ | .sAdd key _ | .sRem key _ | .sPop key | .zAdd key _ | .zRem key _
  | .zIncrBy key _ _ | .hSet key _ _ | .hDel key _ | .hIncrBy key _ _ => some key
  | _ => none

/--
The keys that a command overwrites with strings without a deadline; `SETNX` does if it replies 1.
-/
def Command.overwrites (reply : String) : Command → List String
  | .set key _ none | .getSet key _ => [key]
  | .mSet pairs => pairs.map Prod.fst
  | .setNx key _ => if reply = Resp.integer 1 then [key] else []
  | _ => []

namespace KeyOp

/--
The operation keeps the deadline of the entry it finds, and gives none to one it creates.
-/
def KeepsDeadline (op : KeyOp α) : Prop :=
  ∀ found entry, (op found).1 = some entry → entry.expiresAt = found.bind Entry.expiresAt

theorem KeepsDeadline.reply {op : KeyOp α} (h : op.KeepsDeadline) (encode : α → String)
    : (op.reply encode).KeepsDeadline := by
  intro found entry hentry
  exact h found entry hentry

theorem keepsDeadline_updateOp (fresh : Value) (act : Value → Except StoreError (Value × α))
    : (updateOp fresh act).KeepsDeadline := by
  intro found entry hentry
  unfold updateOp at hentry
  dsimp only at hentry
  split at hentry
  all_goals
    cases hentry
    cases found <;> rfl

theorem keepsDeadline_removeOp (absent : α) (act : Value → Except StoreError (Value × α × Bool))
    : (removeOp absent act).KeepsDeadline := by
  intro found entry hentry
  cases found with
  | none => cases hentry
  | some old =>
    simp only [removeOp] at hentry
    split at hentry
    . next isEmpty _ =>
      cases isEmpty <;> cases hentry
      rfl
    . cases hentry
      rfl

theorem keepsDeadline_lsetOp (index : Int64) (value : String)
    : (lsetOp index value).KeepsDeadline := by
  intro found entry hentry
  cases found with
  | none => cases hentry
  | some old =>
    simp only [lsetOp] at hentry
    split at hentry
    . split at hentry <;> cases hentry <;> rfl
    . cases hentry
      rfl

end KeyOp

variable {env : Env} {command : Command} {key : String} {op : KeyOp String} {db : Database}

theorem updatesInPlace_keepsDeadline (env : Env) (h : command.updatesInPlace = some key)
    : ∃ op, command.keyOp env = some (key, op) ∧ op.KeepsDeadline := by
  cases command
  all_goals simp only [Command.updatesInPlace, Option.some.injEq, reduceCtorEq] at h
  all_goals
    subst h
    refine ⟨_, rfl, KeyOp.KeepsDeadline.reply ?_ _⟩
  case lSet => exact KeyOp.keepsDeadline_lsetOp _ _
  case lPop | rPop | sRem | sPop | zRem | hDel => exact KeyOp.keepsDeadline_removeOp _ _
  all_goals exact KeyOp.keepsDeadline_updateOp _ _

theorem live_execute_keyOp (hkey : command.keyOp env = some (key, op)) (db : Database)
    : live env.now (execute env command db).1.store key
        =
      (op (live env.now db.store key)).1.filter (Entry.isLive env.now) := by
  rw [execute_eq_keyOp hkey]
  unfold Database.run live
  rw [LiveMap.live_atKey, if_pos rfl]

theorem live_execute_of_keepsDeadline (hkey : command.keyOp env = some (key, op))
    (hop : op.KeepsDeadline) {entry : Entry}
    (h : live env.now (execute env command db).1.store key = some entry)
    : entry.expiresAt = (live env.now db.store key).bind Entry.expiresAt := by
  rw [live_execute_keyOp hkey, Option.filter_eq_some_iff] at h
  exact hop _ entry h.1

theorem getElem?_execute_of_not_named (hflush : command ≠ .flushAll)
    (h : key ∉ command.namedKeys.getD [])
    : (execute env command db).1.store[key]? = db.store[key]? := by
  cases hnames : command.namedKeys with
  | some names =>
    rw [hnames] at h
    rcases execute_local hnames env with ⟨op, hlocal, hexecute⟩
    rw [hexecute]
    exact hlocal.frame db.store key h
  | none =>
    have hread : command.mutates = false ∧ command.keyOp env = none := by
      cases command
      case flushAll => exact absurd rfl hflush
      all_goals first | exact ⟨rfl, rfl⟩ | cases hnames
    rw [execute_store_of_read hread.2 hread.1]

theorem live_execute_of_not_named (hflush : command ≠ .flushAll)
    (h : key ∉ command.namedKeys.getD []) (now : Instant)
    : live now (execute env command db).1.store key = live now db.store key := by
  unfold live LiveMap.live
  rw [getElem?_execute_of_not_named hflush h]

/-
The commands that overwrite.
-/

theorem live_string (now : Instant) (store : Store) (key value : String)
    : live now (store.insert key { value := .str value, expiresAt := none }) key
        =
      some { value := .str value, expiresAt := none } := by
  unfold live
  rw [LiveMap.live_insert, if_pos rfl]
  rfl

/--
The last pair of a key decides, and none of them has a deadline.
-/
theorem live_mset (now : Instant) (pairs : List (String × String)) (store : Store)
    (h : (∃ entry, live now store key = some entry ∧ entry.expiresAt = none)
      ∨ key ∈ pairs.map Prod.fst)
    : ∃ entry, live now (Db.mset pairs store) key = some entry ∧ entry.expiresAt = none := by
  unfold Db.mset
  induction pairs generalizing store with
  | nil =>
    rcases h with h | hmem
    . exact h
    . cases hmem
  | cons pair pairs ih =>
    rcases pair with ⟨other, value⟩
    apply ih
    by_cases heq : other = key
    . left
      rw [heq]
      exact ⟨_, live_string now store key value, rfl⟩
    . unfold live
      rw [LiveMap.live_insert, if_neg heq]
      rcases h with h | hmem
      . exact .inl h
      . rcases List.mem_cons.mp hmem with hmem | hmem
        . exact absurd hmem.symm heq
        . exact .inr hmem

theorem reply_setnx_eq_one_iff {found : Option Entry} {value : String}
    : ((KeyOp.setnxOp value).reply Reply.bit found).2 = Resp.integer 1 ↔ found = none := by
  cases found with
  | none => exact iff_of_true rfl rfl
  | some entry =>
    have hreply : Reply.bit false ≠ Resp.integer 1 := by decide
    exact iff_of_false hreply (by simp)

theorem live_execute_overwrites (hok : Reply.isError (execute env command db).2 = false)
    (hmem : key ∈ command.overwrites (execute env command db).2)
    : ∃ entry, live env.now (execute env command db).1.store key = some entry
        ∧ entry.expiresAt = none := by
  cases command
  case set name value ttl =>
    cases ttl with
    | some seconds => cases hmem
    | none =>
      rw [List.mem_singleton.mp hmem]
      exact ⟨_, live_string env.now db.store name value, rfl⟩
  case getSet name value =>
    rw [List.mem_singleton.mp hmem]
    have hkey : (Command.getSet name value).keyOp env
        = some (name, (KeyOp.getsetOp value).reply Reply.optional) := rfl
    rw [execute_eq_keyOp hkey] at hok
    rw [live_execute_keyOp hkey]
    refine ⟨{ value := .str value, expiresAt := none }, ?_, rfl⟩
    have hentry : (KeyOp.getsetOp value (live env.now db.store name)).1
        = some { value := .str value, expiresAt := none } := by
      simp only [Database.run, atKey_eq, KeyOp.reply, id_eq] at hok
      cases hlive : live env.now db.store name with
      | none => rfl
      | some entry =>
        rw [hlive] at hok
        unfold KeyOp.getsetOp at *
        cases hstr : entry.value.asStr with
        | ok current => simp [hstr]
        | error error => simp [hstr, Reply.optional] at hok
    unfold KeyOp.reply
    rw [hentry]
    rfl
  case setNx name value =>
    have hkey : (Command.setNx name value).keyOp env
        = some (name, (KeyOp.setnxOp value).reply Reply.bit) := rfl
    simp only [Command.overwrites] at hmem
    split at hmem
    . next hreply =>
      rw [List.mem_singleton.mp hmem, live_execute_keyOp hkey]
      rw [execute_eq_keyOp hkey] at hreply
      simp only [Database.run, atKey_eq, id_eq, reply_setnx_eq_one_iff] at hreply
      rw [hreply]
      exact ⟨_, rfl, rfl⟩
    . cases hmem
  case mSet pairs => exact live_mset env.now pairs db.store (.inr hmem)
  all_goals cases hmem

/-
The commands about deadlines and names.
-/

theorem live_execute_rename {source target : String}
    (hok : Reply.isError (execute env (.rename source target) db).2 = false)
    : live env.now (execute env (.rename source target) db).1.store target
          = live env.now db.store source
        ∧ (source ≠ target
          → live env.now (execute env (.rename source target) db).1.store source = none) := by
  simp only [execute, Database.run, Db.rename, liveEntry_eq] at hok ⊢
  cases hlive : live env.now db.store source with
  | none => simp [hlive, Reply.renamed] at hok
  | some entry =>
    have halive : Option.filter (Entry.isLive env.now) (some entry) = some entry := by
      rw [live, LiveMap.live_eq_some] at hlive
      exact Option.filter_eq_some_iff.mpr ⟨rfl, hlive.2⟩
    simp only [LiveMap.erase_put]
    unfold live
    constructor
    . rw [LiveMap.live_insert, if_pos rfl, halive]
    . intro hne
      rw [LiveMap.live_insert, if_neg (Ne.symm hne), LiveMap.live_put, if_pos rfl]
      rfl

theorem toNat_toUInt64_pos {seconds : Int64} (h : ¬ seconds ≤ 0) : 0 < seconds.toUInt64.toNat := by
  rw [Nat.pos_iff_ne_zero]
  intro hzero
  apply h
  have hseconds : seconds.toUInt64 = (0 : Int64).toUInt64 := UInt64.toNat_inj.mp hzero
  rw [← Int64.toInt64_toUInt64 seconds, hseconds]
  exact Int64.le_refl 0

theorem lt_checkedAdd {now deadline : Instant} {seconds : UInt64} (hpos : 0 < seconds.toNat)
    (h : now.checkedAdd seconds = some deadline)
    : now < deadline := by
  have hnanos : deadline.nanos = now.nanos + seconds.toNat * nanosPerSec := by
    unfold Instant.checkedAdd at h
    dsimp only at h
    split at h
    . rw [← Option.some.inj h]
    . cases h
  have hdelay : 0 < seconds.toNat * nanosPerSec := Nat.mul_pos hpos (by decide)
  rw [Instant.lt_def, hnanos]
  omega

theorem isLive_deadlineAfter {now : Instant} {seconds : Int64} (h : ¬ seconds ≤ 0)
    {expiresAt : Option Instant} (hdeadline : deadlineAfter now seconds.toUInt64 = expiresAt)
    (value : Value)
    : Entry.isLive now { value, expiresAt } = true := by
  cases expiresAt with
  | none => rfl
  | some deadline =>
    have hlt := lt_checkedAdd (toNat_toUInt64_pos h) hdeadline
    simpa [Entry.isLive, Entry.isExpired] using not_le_of_gt hlt

theorem live_execute_expire (key : String) (seconds : Int64)
    : (live env.now (execute env (.expire key seconds) db).1.store key).map Entry.value
        =
      if seconds ≤ 0 then none else (live env.now db.store key).map Entry.value := by
  have hkey : (Command.expire key seconds).keyOp env
      = some (key, (KeyOp.expireOp env.now seconds).reply Reply.bit) := rfl
  rw [live_execute_keyOp hkey]
  unfold KeyOp.reply
  cases hlive : live env.now db.store key with
  | none => simp [KeyOp.expireOp]
  | some entry =>
    unfold KeyOp.expireOp
    dsimp only
    split
    . rfl
    . next hpos =>
      simp only [Option.filter, isLive_deadlineAfter hpos rfl entry.value, if_true,
        Option.map_some]

theorem live_execute_persist (key : String)
    : (live env.now (execute env (.persist key) db).1.store key).map Entry.value
        =
      (live env.now db.store key).map Entry.value := by
  have hkey : (Command.persist key).keyOp env = some (key, KeyOp.persistOp.reply Reply.bit) := rfl
  rw [live_execute_keyOp hkey]
  unfold KeyOp.reply
  cases live env.now db.store key <;> rfl

/--
What a successful command does to values and deadlines.
-/
structure DeadlineRules (command : Command) (reply : String) (before after : String → Option Entry)
    : Prop where
  others : command ≠ .flushAll
    → ∀ key, key ∉ command.namedKeys.getD [] → after key = before key
  kept : ∀ key, command.updatesInPlace = some key
    → ∀ old entry, before key = some old → after key = some entry → entry.expiresAt = old.expiresAt
  created : ∀ key, command.updatesInPlace = some key
    → ∀ entry, before key = none → after key = some entry → entry.expiresAt = none
  overwritten : ∀ key ∈ command.overwrites reply,
    ∃ entry, after key = some entry ∧ entry.expiresAt = none
  renamed : ∀ source target, command = .rename source target
    → after target = before source ∧ (source ≠ target → after source = none)
  expire : ∀ key seconds, command = .expire key seconds
    → (after key).map Entry.value = if seconds ≤ 0 then none else (before key).map Entry.value
  persist : ∀ key, command = .persist key
    → (after key).map Entry.value = (before key).map Entry.value

theorem deadline_rules (env : Env) (command : Command) (db : Database)
    (hok : Reply.isError (execute env command db).2 = false)
    : DeadlineRules command (execute env command db).2 (live env.now db.store)
        (live env.now (execute env command db).1.store) := by
  refine ⟨?_, ?_, ?_, ?_, ?_, ?_, ?_⟩
  . intro hflush key hnamed
    exact live_execute_of_not_named hflush hnamed env.now
  . intro key hupdates old entry hbefore hafter
    rcases updatesInPlace_keepsDeadline env hupdates with ⟨op, hkey, hop⟩
    rw [live_execute_of_keepsDeadline hkey hop hafter, hbefore]
    rfl
  . intro key hupdates entry hbefore hafter
    rcases updatesInPlace_keepsDeadline env hupdates with ⟨op, hkey, hop⟩
    rw [live_execute_of_keepsDeadline hkey hop hafter, hbefore]
    rfl
  . intro key hmem
    exact live_execute_overwrites hok hmem
  . rintro source target rfl
    exact live_execute_rename hok
  . rintro key seconds rfl
    exact live_execute_expire key seconds
  . rintro key rfl
    exact live_execute_persist key

/--
`GETSET` where an expired entry is still stored.
-/
theorem deadline_rules_getset
    : let now := startOfClock
      let env := envAt now
      let expired : Entry := { value := .list .new, expiresAt := some now }
      let db := { Database.new now with store := (∅ : Store).insert "k" expired }
      ∃ entry, live now (execute env (.getSet "k" "v") db).1.store "k" = some entry
        ∧ entry.expiresAt = none := by
  intro now env expired db
  have hok : Reply.isError (execute env (.getSet "k" "v") db).2 = false := by decide +kernel
  exact (deadline_rules env (.getSet "k" "v") db hok).overwritten "k" List.mem_cons_self

end RedisClone
