import RedisClone.Keyspace.Remaining
import RedisClone.Keyspace.WrongType

/-!
This module contains the proof that everything that shows which keys exist shows the same keys: `KEYS`,
`EXISTS`, `TYPE`, `TTL`, `DEL`, `DBSIZE` and the snapshot.
-/

namespace RedisClone

open Store

theorem Resp.integer_inj {value value' : Int64}
    : Resp.integer value = Resp.integer value' ↔ value = value' := by
  constructor
  . intro h
    simp only [Resp.integer, String.append_assoc] at h
    rw [String.append_right_inj, String.append_left_inj] at h
    exact toString_int64_injective h
  . rintro rfl
    rfl

theorem globMatch_star (text : String) : globMatch "*" text = true := by
  have hbytes : asBytes "*" = [star] := by decide
  unfold globMatch
  rw [hbytes, globMatchBytes.eq_def]
  rfl

namespace Db

variable {env : Env} {store : Store} {key : String}

theorem keys_star (env : Env) (store : Store)
    : keys env "*" store
        =
      (env.order .keyspace store.keys).filter fun key => (live env.now store key).isSome := by
  unfold keys
  simp only [globMatch_star, Bool.and_true]

theorem keys_star_perm (env : Env) (store : Store)
    : (keys env "*" store).Perm (LiveMap.liveKeys (Entry.isLive env.now) store) := by
  rw [keys_star]
  exact (env.order_perm _ _).filter _

theorem mem_keys_star : key ∈ keys env "*" store ↔ (live env.now store key).isSome = true := by
  rw [(keys_star_perm env store).mem_iff]
  exact LiveMap.mem_liveKeys

theorem nodup_keys_star : (keys env "*" store).Nodup := by
  rw [(keys_star_perm env store).nodup_iff]
  exact LiveMap.nodup_liveKeys

theorem dbsize_eq : dbsize env.now store = (keys env "*" store).length := by
  rw [(keys_star_perm env store).length_eq]
  rfl

theorem snapshot_keys (env : Env) (store : Store)
    : (snapshot env store).entries.map SnapshotEntry.key = keys env "*" store := by
  rw [keys_star]
  unfold snapshot
  dsimp only
  induction env.order .keyspace store.keys with
  | nil => rfl
  | cons key keys ih =>
    rw [List.filterMap_cons, List.filter_cons]
    cases live env.now store key with
    | none => exact ih
    | some entry => exact congrArg (key :: ·) ih

end Db

theorem remaining_of_deadline (now : Instant) {deadline : Instant} {entry : Entry}
    (hdeadline : entry.expiresAt = some deadline)
    : (entry.remaining now).toInt = deadline.secsSince now := by
  have hlt := deadline.secsSince_lt now
  unfold Entry.remaining
  rw [hdeadline]
  dsimp only
  rw [← Int64.ofInt_eq_ofNat]
  apply Int64.toInt_ofInt_of_le <;> omega

theorem remaining_eq_minusOne_iff {now : Instant} {entry : Entry}
    : entry.remaining now = -1 ↔ entry.expiresAt = none := by
  cases hdeadline : entry.expiresAt with
  | none =>
    unfold Entry.remaining
    rw [hdeadline]
    simp
  | some deadline =>
    refine iff_of_false ?_ (by simp)
    intro h
    have hsecs := remaining_of_deadline now hdeadline
    rw [h] at hsecs
    have hminus : (-1 : Int64).toInt = -1 := by decide
    omega

theorem remaining_ne_minusTwo (now : Instant) (entry : Entry) : entry.remaining now ≠ -2 := by
  intro h
  cases hdeadline : entry.expiresAt with
  | none =>
    rw [remaining_eq_minusOne_iff.mpr hdeadline] at h
    exact absurd h (by decide)
  | some deadline =>
    have hsecs := remaining_of_deadline now hdeadline
    rw [h] at hsecs
    have hminus : (-2 : Int64).toInt = -2 := by decide
    omega

section

variable {env : Env} {db : Database} {key : String}

theorem reply_dispatch {tokens : List String} (command : Command)
    (h : Command.parse tokens = .ok command)
    : (dispatch env tokens db).2 = (execute env command db).2 := by
  rw [dispatch_of_parse_ok h]

theorem reply_ttl (env : Env) (key : String) (db : Database)
    : (execute env (.ttl key) db).2
        =
      Resp.integer (((live env.now db.store key).map (Entry.remaining env.now)).getD (-2)) := by
  show Resp.integer (Db.ttl env.now key db.store).2 = _
  rw [ttl_eq]
  cases live env.now db.store key <;> rfl

theorem reply_exists (env : Env) (key : String) (db : Database)
    : (execute env (.existsKeys [key]) db).2
        =
      Resp.integer (if (live env.now db.store key).isSome then 1 else 0) := by
  show Reply.number (Db.existsCount env.now [key] db.store) = _
  unfold Db.existsCount
  rw [List.filter_singleton]
  cases live env.now db.store key <;> rfl

theorem reply_del (env : Env) (key : String) (db : Database)
    : (execute env (.del [key]) db).2
        =
      Resp.integer (if (live env.now db.store key).isSome then 1 else 0) := by
  show Reply.number (Db.del env.now [key] db.store).2 = _
  unfold Db.del
  simp only [List.foldl_cons, List.foldl_nil]
  rw [liveEntry_eq]
  cases live env.now db.store key <;> rfl

end

/--
What the commands on the keyspace show, if `names` are the keys there are.
-/
structure Views (env : Env) (db : Database) (names : List String) : Prop where
  keys : (dispatch env ["KEYS", "*"] db).2 = Resp.array names
  nodup : names.Nodup
  dbsize : (dispatch env ["DBSIZE"] db).2 = Reply.number names.length
  exists_iff : ∀ key, key ∈ names ↔ (dispatch env ["EXISTS", key] db).2 = Resp.integer 1
  type_iff : ∀ key, key ∈ names ↔ (dispatch env ["TYPE", key] db).2 ≠ Resp.simpleString "none"
  ttl_iff : ∀ key, key ∈ names ↔ (dispatch env ["TTL", key] db).2 ≠ Resp.integer (-2)
  snapshot : ∀ key, ((Db.snapshot env db.store).entries.map SnapshotEntry.key).count key
    = if key ∈ names then 1 else 0
  del_iff : ∀ key, key ∈ names ↔ (dispatch env ["DEL", key] db).2 = Resp.integer 1
  permanent_iff : ∀ key, (dispatch env ["TTL", key] db).2 = Resp.integer (-1)
    ↔ ∃ entry, db.store[key]? = some entry ∧ entry.expiresAt = none
  remaining : ∀ key ∈ names, ∀ entry deadline, db.store[key]? = some entry
    → entry.expiresAt = some deadline
    → ∃ secs : Nat, (dispatch env ["TTL", key] db).2 = ":" ++ toString secs ++ "\r\n"
      ∧ env.now.nanos + secs * nanosPerSec ≤ deadline.nanos
      ∧ deadline.nanos < env.now.nanos + (secs + 1) * nanosPerSec

/--
All views of the keyspace agree on which keys exist, also if expired entries are still stored.
-/
theorem views_agree (env : Env) (db : Database) : Views env db (Db.keys env "*" db.store) where
  keys := by
    rw [reply_dispatch (.keys "*") rfl]
    rfl
  nodup := Db.nodup_keys_star
  dbsize := by
    rw [reply_dispatch (.dbSize) rfl, ← Db.dbsize_eq]
    rfl
  exists_iff key := by
    rw [reply_dispatch (.existsKeys [key]) rfl, reply_exists, Resp.integer_inj,
      Db.mem_keys_star]
    cases live env.now db.store key <;> simp
  type_iff key := by
    rw [reply_dispatch (.type key) rfl, execute_type, ne_eq, simpleString_inj,
      Db.mem_keys_star]
    cases live env.now db.store key with
    | none => simp
    | some entry => rcases entry with ⟨value, expiresAt⟩; cases value <;> simp [Value.typeName]
  ttl_iff key := by
    rw [reply_dispatch (.ttl key) rfl, reply_ttl, ne_eq, Resp.integer_inj,
      Db.mem_keys_star]
    cases live env.now db.store key with
    | none => simp
    | some entry => simp [remaining_ne_minusTwo]
  snapshot key := by
    rw [Db.snapshot_keys]
    exact Db.nodup_keys_star.count
  del_iff key := by
    rw [reply_dispatch (.del [key]) rfl, reply_del, Resp.integer_inj,
      Db.mem_keys_star]
    cases live env.now db.store key <;> simp
  permanent_iff key := by
    rw [reply_dispatch (.ttl key) rfl, reply_ttl, Resp.integer_inj]
    cases hlive : live env.now db.store key with
    | none =>
      refine iff_of_false (by simp) ?_
      rintro ⟨entry, hentry, hpermanent⟩
      -- an entry without a deadline does not expire
      have halive : entry.isLive env.now = true := by
        unfold Entry.isLive Entry.isExpired
        rw [hpermanent]
        rfl
      have hsome := LiveMap.live_eq_some.mpr ⟨hentry, halive⟩
      exact Option.some_ne_none _ (hsome.symm.trans hlive)
    | some entry =>
      rw [Option.map_some, Option.getD_some, remaining_eq_minusOne_iff]
      have hentry := (LiveMap.live_eq_some.mp hlive).1
      constructor
      . intro hpermanent
        exact ⟨entry, hentry, hpermanent⟩
      . rintro ⟨entry', hentry', hpermanent⟩
        rw [hentry] at hentry'
        cases hentry'
        exact hpermanent
  remaining key hmem entry deadline hentry hdeadline := by
    rw [Db.mem_keys_star, Option.isSome_iff_exists] at hmem
    rcases hmem with ⟨entry', hlive⟩
    have hentry' := (LiveMap.live_eq_some.mp hlive).1
    rw [hentry] at hentry'
    cases hentry'
    have hle : env.now ≤ deadline := by
      rcases entry with ⟨value, expiresAt⟩
      cases hdeadline
      exact le_of_isLive (LiveMap.live_eq_some.mp hlive).2
    refine ⟨deadline.secsSince env.now, ?_, Instant.secsSince_spec hle, ?_⟩
    . rw [reply_dispatch (.ttl key) rfl, reply_ttl, hlive, Option.map_some, Option.getD_some]
      have hsecs := remaining_of_deadline env.now hdeadline
      show ":" ++ toString (entry.remaining env.now).toInt ++ "\r\n" = _
      rw [hsecs]
      rfl
    . unfold Instant.secsSince
      have hpos : 0 < nanosPerSec := by decide
      have hdiv := Nat.lt_mul_div_succ (deadline.nanos - env.now.nanos) hpos
      rw [Instant.le_def] at hle
      rw [Nat.mul_comm] at hdiv
      omega

end RedisClone
