import RedisClone.Keyspace.Deadline

/-!
This module contains what becomes of a command whose run and whose replay read different clocks: in the
replay keys outlive their deadlines, and what commands do elsewhere stays the same as long as none of
them builds on such a key.
-/

namespace RedisClone

open Store

/--
The type of the value that has expired at a key, unless the key was written or deleted since.
-/
abbrev Expired := String → Option String

namespace Command

/--
Whether a command creates an entry where one has expired, after looking at what is there. `GETSET`
looks at the type only.
-/
def revives (expired : Expired) : Command → Bool
  | .setNx key _ | .incrBy key _ | .append key _ | .lPush key _ | .rPush key _ | .sAdd key _
  | .zAdd key _ | .zIncrBy key _ _ | .hSet key _ _ | .hIncrBy key _ _ => (expired key).isSome
  | .getSet key _ => (expired key).any (· != "string")
  | _ => false

/--
Whether nothing of an entry that has expired at `key` is left after a command.
-/
def forgets (key : String) : Command → Bool
  | .set name _ _ => name == key
  | .mSet pairs => (pairs.map Prod.fst).contains key
  | .del names => names.contains key
  | .expire name seconds => name == key && decide (seconds ≤ 0)
  | .flushAll => true
  | _ => false

end Command

/--
What the replay shows at a key where the run shows `found`: a live entry has the same value there, and
has no deadline if it has none in the run; otherwise only the entry that has expired can still be there.
-/
def Restores (found : Option Entry) (expired : Option String) (found' : Option Entry) : Prop :=
  match found with
  | some entry => ∃ entry', found' = some entry' ∧ entry'.value = entry.value
      ∧ (entry.expiresAt = none → entry'.expiresAt = none)
  | none => ∀ entry', found' = some entry' → expired = some entry'.value.typeName

section

variable {found found' : Option Entry} {expired : Option String} {now now' : Instant}

theorem restores_none (expired : Option String) : Restores none expired none := by
  intro entry' hentry'
  cases hentry'

theorem Restores.forget (h : Restores none none found') : found' = none := by
  cases found' with
  | none => rfl
  | some entry' => cases h entry' rfl

/--
A filter of the entries that keeps what the run shows.
-/
theorem Restores.filter {alive alive' : Entry → Bool} (h : Restores found expired found')
    (hfound : ∀ entry, found = some entry → alive entry = true)
    (hfound' : ∀ entry, found.isSome → found' = some entry → alive' entry = true)
    : Restores (found.filter alive) expired (found'.filter alive') := by
  cases found with
  | none =>
    intro entry' hentry'
    rw [Option.filter_eq_some_iff] at hentry'
    exact h entry' hentry'.1
  | some entry =>
    rcases h with ⟨entry', rfl, hvalue, hdeadline⟩
    rw [Option.filter_some, if_pos (hfound entry rfl), Option.filter_some,
      if_pos (hfound' entry' rfl rfl)]
    exact ⟨entry', rfl, hvalue, hdeadline⟩

theorem KeyOp.KeepsDeadline.isLive {op : KeyOp α} (h : op.KeepsDeadline)
    (hfound : ∀ entry, found = some entry → entry.isLive now = true) (entry : Entry)
    (hentry : (op found).1 = some entry)
    : entry.isLive now = true := by
  have hdeadline := h found entry hentry
  unfold Entry.isLive Entry.isExpired
  cases found with
  | none =>
    rw [hdeadline]
    rfl
  | some old =>
    rw [hdeadline]
    exact hfound old rfl

/-
The operations on one key.
-/

namespace KeyOp

theorem restores_updateOp (fresh : Value) (act : Value → Except StoreError (Value × α))
    (h : Restores found expired found') (hexpired : found = none → expired = none)
    (after : Option String)
    : Restores (updateOp fresh act found).1 after (updateOp fresh act found').1 := by
  cases found with
  | none =>
    rw [hexpired rfl] at h
    rw [h.forget]
    simp only [updateOp, Option.getD_none]
    cases act fresh <;> exact ⟨_, rfl, rfl, id⟩
  | some entry =>
    rcases h with ⟨entry', rfl, hvalue, hdeadline⟩
    simp only [updateOp, Option.getD_some]
    rw [hvalue]
    cases act entry.value with
    | ok changed => exact ⟨_, rfl, rfl, hdeadline⟩
    | error error => exact ⟨_, rfl, hvalue, hdeadline⟩

theorem restores_removeOp (absent : α) (act : Value → Except StoreError (Value × α × Bool))
    (hact : ∀ value value' result isEmpty, act value = .ok (value', result, isEmpty)
      → value'.typeName = value.typeName)
    (h : Restores found expired found')
    : Restores (removeOp absent act found).1 expired (removeOp absent act found').1 := by
  cases found with
  | none =>
    -- the entry that has outlived its deadline changes in the replay only
    intro entry' hentry'
    cases found' with
    | none => cases hentry'
    | some old =>
      have htype := h old rfl
      simp only [removeOp] at hentry'
      cases hresult : act old.value with
      | error error =>
        rw [hresult] at hentry'
        cases hentry'
        exact htype
      | ok changed =>
        rcases changed with ⟨value', result, isEmpty⟩
        rw [hresult] at hentry'
        cases isEmpty with
        | true => cases hentry'
        | false =>
          cases hentry'
          rw [htype, hact _ _ _ _ hresult]
  | some entry =>
    rcases h with ⟨entry', rfl, hvalue, hdeadline⟩
    simp only [removeOp]
    rw [hvalue]
    cases act entry.value with
    | error error => exact ⟨_, rfl, hvalue, hdeadline⟩
    | ok changed =>
      rcases changed with ⟨value', result, isEmpty⟩
      cases isEmpty with
      | true => exact restores_none expired
      | false => exact ⟨_, rfl, rfl, hdeadline⟩

theorem restores_setnxOp (value : String) (h : Restores found expired found')
    (hexpired : found = none → expired = none) (after : Option String)
    : Restores (setnxOp value found).1 after (setnxOp value found').1 := by
  cases found with
  | none =>
    rw [hexpired rfl] at h
    rw [h.forget]
    exact ⟨_, rfl, rfl, id⟩
  | some entry =>
    rcases h with ⟨entry', rfl, h⟩
    exact ⟨entry', rfl, h⟩

theorem restores_getsetOp (value : String) (h : Restores found expired found')
    (hexpired : found = none → ∀ type, expired = some type → type = "string")
    (after : Option String)
    : Restores (getsetOp value found).1 after (getsetOp value found').1 := by
  cases found with
  | none =>
    cases found' with
    | none => exact ⟨_, rfl, rfl, id⟩
    | some old =>
      rcases old with ⟨old, expiresAt⟩
      have hstring := hexpired rfl _ (h _ rfl)
      cases old with
      | str text => exact ⟨_, rfl, rfl, id⟩
      | _ => simp [Value.typeName] at hstring
  | some entry =>
    rcases h with ⟨entry', rfl, hvalue, hdeadline⟩
    simp only [getsetOp]
    rw [hvalue]
    cases entry.value.asStr with
    | ok current => exact ⟨_, rfl, rfl, id⟩
    | error error => exact ⟨_, rfl, hvalue, hdeadline⟩

theorem restores_lsetOp (index : Int64) (value : String) (h : Restores found expired found')
    : Restores (lsetOp index value found).1 expired (lsetOp index value found').1 := by
  cases found with
  | none =>
    intro entry' hentry'
    cases found' with
    | none => cases hentry'
    | some old =>
      rcases old with ⟨old, expiresAt⟩
      have htype := h _ rfl
      cases old with
      | list list =>
        simp only [lsetOp, Value.asList] at hentry'
        rcases hlset : list.lset index value with ⟨list', _ | _⟩
        all_goals
          rw [hlset] at hentry'
          cases hentry'
          exact htype
      | _ =>
        cases hentry'
        exact htype
  | some entry =>
    rcases h with ⟨entry', rfl, hvalue, hdeadline⟩
    simp only [lsetOp]
    rw [hvalue]
    cases entry.value.asList with
    | error error => exact ⟨_, rfl, hvalue, hdeadline⟩
    | ok list =>
      rcases hlset : list.lset index value with ⟨list', _ | _⟩
      . simp only [hlset]
        exact ⟨_, rfl, hvalue, hdeadline⟩
      . simp only [hlset]
        exact ⟨_, rfl, rfl, hdeadline⟩

theorem restores_persistOp (h : Restores found expired found')
    : Restores (persistOp found).1 expired (persistOp found').1 := by
  cases found with
  | none =>
    intro entry' hentry'
    cases found' with
    | none => cases hentry'
    | some old =>
      cases hentry'
      exact h old rfl
  | some entry =>
    rcases h with ⟨entry', rfl, hvalue, -⟩
    exact ⟨_, rfl, hvalue, fun _ => rfl⟩

end KeyOp

/-
Deadlines.
-/

theorem isLive_deadlineAfter_eq (now : Instant) (value : Value) (seconds : UInt64)
    : Entry.isLive now { value, expiresAt := deadlineAfter now seconds }
        =
      decide (0 < seconds.toNat) := by
  unfold deadlineAfter
  by_cases hpos : 0 < seconds.toNat
  . rw [decide_eq_true hpos]
    cases hdeadline : now.checkedAdd seconds with
    | none => rfl
    | some deadline =>
      have hlt := lt_checkedAdd hpos hdeadline
      simpa [Entry.isLive, Entry.isExpired] using not_le_of_gt hlt
  . have hzero : seconds.toNat = 0 := by omega
    have hdeadline : now.checkedAdd seconds = some now := by
      unfold Instant.checkedAdd
      simp only [hzero, Nat.zero_mul, Nat.add_zero]
      rw [dif_pos now.inRange]
    rw [hdeadline, decide_eq_false hpos]
    simp [Entry.isLive, Entry.isExpired]

theorem deadlineAfter_eq_none (hle : now ≤ now') {seconds : UInt64}
    (h : deadlineAfter now seconds = none)
    : deadlineAfter now' seconds = none := by
  unfold deadlineAfter Instant.checkedAdd at *
  rw [Instant.le_def] at hle
  dsimp only at *
  split at h
  . cases h
  . rw [dif_neg]
    omega

theorem restores_permanent (value : Value) (expired : Option String)
    : Restores (Option.filter (Entry.isLive now) (some { value, expiresAt := none })) expired
        (Option.filter (Entry.isLive now') (some { value, expiresAt := none })) := by
  exact ⟨_, rfl, rfl, id⟩

theorem restores_deadlineAfter (hle : now ≤ now') (value : Value) (seconds : UInt64)
    (expired : Option String)
    : Restores
        (Option.filter (Entry.isLive now)
          (some { value, expiresAt := deadlineAfter now seconds }))
        expired
        (Option.filter (Entry.isLive now')
          (some { value, expiresAt := deadlineAfter now' seconds })) := by
  rw [Option.filter_some, Option.filter_some, isLive_deadlineAfter_eq, isLive_deadlineAfter_eq]
  split
  . exact ⟨_, rfl, rfl, deadlineAfter_eq_none hle⟩
  . exact restores_none expired

end

/--
The keys as a run shows them at `now`, and as a replay at `now'` does.
-/
def Outlives (now now' : Instant) (store store' : Store) (expired : Expired) : Prop :=
  ∀ key, Restores (live now store key) (expired key) (live now' store' key)

/--
What is left of the expired entries after a command.
-/
def Expired.after (expired : Expired) (command : Command) : Expired := fun key =>
  if command.forgets key then none else expired key

namespace Db

variable {now : Instant} {store : Store} {key : String}

theorem live_del (now : Instant) (keys : List String) (store : Store) (key : String)
    : live now (del now keys store).1 key = if key ∈ keys then none else live now store key := by
  unfold del
  generalize 0 = removed
  induction keys generalizing store removed with
  | nil => simp
  | cons name keys ih =>
    -- an expired entry is evicted and a live one is erased
    have hstep : ∀ other, live now (LiveMap.put store name none) other
        = if name = other then none else live now store other := fun other => LiveMap.live_put none
    simp only [List.foldl_cons]
    rw [liveEntry_eq]
    cases live now store name with
    | none =>
      rw [ih, hstep]
      simp only [List.mem_cons, eq_comm (a := key)]
      split <;> split <;> simp_all
    | some entry =>
      dsimp only
      rw [LiveMap.erase_put, ih, hstep]
      simp only [List.mem_cons, eq_comm (a := key)]
      split <;> split <;> simp_all

theorem live_rename {source target : String} {entry : Entry}
    (h : live now store source = some entry)
    : live now (rename now source target store).1 key
        =
      if target = key then some entry else if source = key then none else live now store key := by
  have halive : entry.isLive now = true := (LiveMap.live_eq_some.mp h).2
  unfold rename
  rw [liveEntry_eq, h]
  dsimp only
  rw [LiveMap.erase_put]
  unfold live
  rw [LiveMap.live_insert, LiveMap.live_put, Option.filter_some, if_pos halive]
  rfl

end Db

section

variable {now now' : Instant} {store store' : Store} {expired : Expired}

theorem Outlives.mset (h : Outlives now now' store store' expired) (pairs : List (String × String))
    : Outlives now now' (Db.mset pairs store) (Db.mset pairs store')
        (expired.after (.mSet pairs)) := by
  unfold Db.mset
  induction pairs generalizing store store' expired with
  | nil => exact h
  | cons pair pairs ih =>
    rcases pair with ⟨name, value⟩
    let forgotten : Expired := fun key => if name = key then none else expired key
    have hstep : Outlives now now' (store.insert name { value := .str value, expiresAt := none })
        (store'.insert name { value := .str value, expiresAt := none }) forgotten := by
      intro key
      unfold live
      rw [LiveMap.live_insert, LiveMap.live_insert]
      by_cases heq : name = key
      . simp only [forgotten, if_pos heq]
        exact ⟨_, rfl, rfl, id⟩
      . simp only [forgotten, if_neg heq]
        exact h key
    have hafter : forgotten.after (.mSet pairs) = expired.after (.mSet ((name, value) :: pairs)) := by
      funext key
      simp only [Expired.after, Command.forgets, forgotten, List.map_cons, List.contains_cons]
      by_cases heq : name = key
      . simp only [heq, BEq.rfl, Bool.true_or, if_true]
        split <;> rfl
      . have hne : (key == name) = false := beq_eq_false_iff_ne.mpr (Ne.symm heq)
        rw [hne, Bool.false_or, if_neg heq]
        rfl
    rw [← hafter]
    exact ih hstep

theorem Outlives.del (h : Outlives now now' store store' expired) (keys : List String)
    : Outlives now now' (Db.del now keys store).1 (Db.del now' keys store').1
        (expired.after (.del keys)) := by
  intro key
  rw [Db.live_del, Db.live_del]
  unfold Expired.after
  by_cases hmem : key ∈ keys
  . rw [if_pos hmem, if_pos hmem]
    exact restores_none _
  . have hforgets : Command.forgets key (.del keys) = false := by
      simpa [Command.forgets] using hmem
    rw [if_neg hmem, if_neg hmem, hforgets]
    exact h key

theorem Outlives.rename (h : Outlives now now' store store' expired) {source : String}
    (hsource : (live now store source).isSome = true) (target : String)
    : Outlives now now' (Db.rename now source target store).1 (Db.rename now' source target store').1
        expired := by
  rw [Option.isSome_iff_exists] at hsource
  rcases hsource with ⟨entry, hentry⟩
  have hrestores := h source
  rw [hentry] at hrestores
  rcases hrestores with ⟨entry', hentry', hsame⟩
  intro key
  rw [Db.live_rename hentry, Db.live_rename hentry']
  split
  . exact ⟨entry', rfl, hsame⟩
  . split
    . exact restores_none _
    . exact h key

end

/-
One command.
-/

section

variable {env env' : Env} {command : Command} {db db' : Database} {expired : Expired} {key : String}
  {op op' : KeyOp String}

theorem execute_keyOp_outlives (hkey : command.keyOp env = some (key, op))
    (hkey' : command.keyOp env' = some (key, op'))
    (h : Outlives env.now env'.now db.store db'.store expired)
    (hothers : ∀ name, name ≠ key → command.forgets name = false)
    (hop : Restores ((op (live env.now db.store key)).1.filter (Entry.isLive env.now))
      (expired.after command key)
      ((op' (live env'.now db'.store key)).1.filter (Entry.isLive env'.now)))
    : Outlives env.now env'.now (execute env command db).1.store (execute env' command db').1.store
        (expired.after command) := by
  have hflush : command ≠ .flushAll := by
    rintro rfl
    cases hkey
  intro name
  by_cases heq : name = key
  . subst heq
    rw [live_execute_keyOp hkey, live_execute_keyOp hkey']
    exact hop
  . have hnot : name ∉ command.namedKeys.getD [] := by
      rw [namedKeys_of_keyOp hkey]
      simpa using heq
    rw [live_execute_of_not_named hflush hnot, live_execute_of_not_named hflush hnot]
    unfold Expired.after
    rw [hothers name heq]
    exact h name

/--
Operations that leave live entries live.
-/
def KeyOp.KeepsLive (op : KeyOp α) : Prop :=
  ∀ now found, (∀ entry, found = some entry → entry.isLive now = true)
    → ∀ entry, (op found).1 = some entry → entry.isLive now = true

theorem KeyOp.KeepsDeadline.keepsLive {op : KeyOp α} (h : op.KeepsDeadline) : op.KeepsLive :=
  fun _ _ hfound => h.isLive hfound

/--
A command that does the same in the run and in the replay, and keeps track of no expired entry.
-/
theorem execute_same_outlives {op : KeyOp α} {encode : α → String}
    (hkey : command.keyOp env = some (key, op.reply encode))
    (hkey' : command.keyOp env' = some (key, op.reply encode))
    (h : Outlives env.now env'.now db.store db'.store expired)
    (hforgets : ∀ name, command.forgets name = false) (hlive : op.KeepsLive)
    (hop : Restores (op (live env.now db.store key)).1 (expired key)
      (op (live env'.now db'.store key)).1)
    : Outlives env.now env'.now (execute env command db).1.store (execute env' command db').1.store
        (expired.after command) := by
  refine execute_keyOp_outlives hkey hkey' h (fun name _ => hforgets name) ?_
  have hafter : expired.after command key = expired key := by
    unfold Expired.after
    rw [hforgets]
    rfl
  rw [hafter]
  apply Restores.filter hop
  . apply hlive
    intro entry hentry
    exact (LiveMap.live_eq_some.mp hentry).2
  . intro entry _
    apply hlive
    intro entry hentry
    exact (LiveMap.live_eq_some.mp hentry).2

theorem KeyOp.keepsLive_setnxOp (value : String) : (setnxOp value).KeepsLive := by
  intro now found hfound entry hentry
  cases found with
  | none =>
    cases hentry
    rfl
  | some old => exact hfound entry hentry

theorem KeyOp.keepsLive_getsetOp (value : String) : (getsetOp value).KeepsLive := by
  intro now found hfound entry hentry
  cases found with
  | none =>
    cases hentry
    rfl
  | some old =>
    simp only [getsetOp] at hentry
    split at hentry
    . cases hentry
      rfl
    . exact hfound entry hentry

theorem KeyOp.keepsLive_persistOp : persistOp.KeepsLive := by
  intro now found hfound entry hentry
  cases found with
  | none => cases hentry
  | some old =>
    cases hentry
    rfl

theorem typeName_popOn (take : RList → RList × Option String) {value value' : Value}
    {result : Option String} {isEmpty : Bool} (h : Db.popOn take value = .ok (value', result, isEmpty))
    : value'.typeName = value.typeName := by
  cases value <;> cases h
  rfl

theorem typeName_sremOn (values : List String) {value value' : Value} {result : Nat} {isEmpty : Bool}
    (h : Db.sremOn values value = .ok (value', result, isEmpty))
    : value'.typeName = value.typeName := by
  cases value <;> cases h
  rfl

theorem typeName_zremOn (member : String) {value value' : Value} {result isEmpty : Bool}
    (h : Db.zremOn member value = .ok (value', result, isEmpty))
    : value'.typeName = value.typeName := by
  cases value <;> cases h
  rfl

theorem typeName_hdelOn (field : String) {value value' : Value} {result isEmpty : Bool}
    (h : Db.hdelOn field value = .ok (value', result, isEmpty))
    : value'.typeName = value.typeName := by
  cases value <;> cases h
  rfl

/--
A command that creates an entry where none is live, and where none has expired.
-/
theorem updateOp_outlives {fresh : Value} {act : Value → Except StoreError (Value × α)}
    {encode : Except StoreError α → String}
    (hkey : command.keyOp env = some (key, (KeyOp.updateOp fresh act).reply encode))
    (hkey' : command.keyOp env' = some (key, (KeyOp.updateOp fresh act).reply encode))
    (h : Outlives env.now env'.now db.store db'.store expired)
    (hforgets : ∀ name, command.forgets name = false) (hrevives : (expired key).isSome = false)
    : Outlives env.now env'.now (execute env command db).1.store (execute env' command db').1.store
        (expired.after command) := by
  apply execute_same_outlives hkey hkey' h hforgets
  . exact (KeyOp.keepsDeadline_updateOp fresh act).keepsLive
  . apply KeyOp.restores_updateOp fresh act (h key)
    intro _
    exact Option.isNone_iff_eq_none.mp (Option.isSome_eq_false_iff.mp hrevives)

theorem removeOp_outlives {absent : α} {act : Value → Except StoreError (Value × α × Bool)}
    {encode : Except StoreError α → String}
    (hkey : command.keyOp env = some (key, (KeyOp.removeOp absent act).reply encode))
    (hkey' : command.keyOp env' = some (key, (KeyOp.removeOp absent act).reply encode))
    (h : Outlives env.now env'.now db.store db'.store expired)
    (hforgets : ∀ name, command.forgets name = false)
    (hact : ∀ value value' result isEmpty, act value = .ok (value', result, isEmpty)
      → value'.typeName = value.typeName)
    : Outlives env.now env'.now (execute env command db).1.store (execute env' command db').1.store
        (expired.after command) := by
  apply execute_same_outlives hkey hkey' h hforgets
  . exact (KeyOp.keepsDeadline_removeOp absent act).keepsLive
  . exact KeyOp.restores_removeOp absent act hact (h key)

theorem restores_overwriteOp (hle : env.now ≤ env'.now) (value : String) (seconds : Option UInt64)
    (result : String) (found found' : Option Entry) (after : Option String)
    : Restores
        ((KeyOp.overwriteOp value (seconds.bind (deadlineAfter env.now)) result found).1.filter
          (Entry.isLive env.now))
        after
        ((KeyOp.overwriteOp value (seconds.bind (deadlineAfter env'.now)) result found').1.filter
          (Entry.isLive env'.now)) := by
  unfold KeyOp.overwriteOp
  cases seconds with
  | none => exact restores_permanent (.str value) after
  | some seconds =>
    -- unfolding the deadline instead would compute with nanoseconds
    rw [Option.bind_some, Option.bind_some]
    exact restores_deadlineAfter hle (.str value) seconds after

theorem execute_set_outlives (hle : env.now ≤ env'.now)
    (h : Outlives env.now env'.now db.store db'.store expired) (key value : String)
    (seconds : Option UInt64)
    : Outlives env.now env'.now (execute env (.set key value seconds) db).1.store
        (execute env' (.set key value seconds) db').1.store
        (expired.after (.set key value seconds)) := by
  have hothers : ∀ name, name ≠ key → Command.forgets name (.set key value seconds) = false :=
    fun name hne => beq_eq_false_iff_ne.mpr (Ne.symm hne)
  have hop := restores_overwriteOp hle value seconds (Resp.simpleString "OK")
    (live env.now db.store key) (live env'.now db'.store key)
    (expired.after (.set key value seconds) key)
  exact execute_keyOp_outlives rfl rfl h hothers hop

theorem execute_expire_outlives (hle : env.now ≤ env'.now)
    (h : Outlives env.now env'.now db.store db'.store expired) (key : String) (seconds : Int64)
    : Outlives env.now env'.now (execute env (.expire key seconds) db).1.store
        (execute env' (.expire key seconds) db').1.store (expired.after (.expire key seconds)) := by
  have hothers : ∀ name, name ≠ key → Command.forgets name (.expire key seconds) = false := by
    intro name hne
    simp only [Command.forgets, beq_eq_false_iff_ne.mpr (Ne.symm hne), Bool.false_and]
  apply execute_keyOp_outlives rfl rfl h hothers
  have hkey := h key
  simp only [KeyOp.reply, KeyOp.expireOp, Expired.after, Command.forgets, BEq.rfl, Bool.true_and,
    decide_eq_true_eq]
  generalize live env.now db.store key = found at hkey ⊢
  generalize live env'.now db'.store key = found' at hkey ⊢
  by_cases hnow : seconds ≤ 0
  . simp only [if_pos hnow]
    cases found <;> cases found' <;> exact restores_none _
  . simp only [if_neg hnow]
    cases found with
    | none =>
      cases found' with
      | none => exact restores_none _
      | some old =>
        intro entry' hentry'
        rw [Option.filter_eq_some_iff] at hentry'
        cases hentry'.1
        exact hkey old rfl
    | some entry =>
      rcases hkey with ⟨entry', rfl, hvalue, -⟩
      dsimp only
      rw [hvalue]
      exact restores_deadlineAfter hle entry.value seconds.toUInt64 _

/--
A command that is logged keeps the replay in step with the run, unless it builds on an entry that has
expired.
-/
theorem execute_outlives (hle : env.now ≤ env'.now) (hwrite : command.isWrite = true)
    (hrename : ∀ source target, command = .rename source target
      → (live env.now db.store source).isSome = true)
    (hrevives : command.revives expired = false)
    (h : Outlives env.now env'.now db.store db'.store expired)
    : Outlives env.now env'.now (execute env command db).1.store (execute env' command db').1.store
        (expired.after command) := by
  cases command
  all_goals simp only [Command.isWrite, Bool.false_eq_true] at hwrite
  case incrBy | append | lPush | rPush | sAdd | zAdd | zIncrBy | hSet | hIncrBy =>
    exact updateOp_outlives rfl rfl h (fun _ => rfl) hrevives
  case lPop | rPop =>
    exact removeOp_outlives rfl rfl h (fun _ => rfl) fun _ _ _ _ => typeName_popOn _
  case sRem => exact removeOp_outlives rfl rfl h (fun _ => rfl) fun _ _ _ _ => typeName_sremOn _
  case zRem => exact removeOp_outlives rfl rfl h (fun _ => rfl) fun _ _ _ _ => typeName_zremOn _
  case hDel => exact removeOp_outlives rfl rfl h (fun _ => rfl) fun _ _ _ _ => typeName_hdelOn _
  case lSet key index value =>
    apply execute_same_outlives rfl rfl h (fun _ => rfl)
    . exact (KeyOp.keepsDeadline_lsetOp index value).keepsLive
    . exact KeyOp.restores_lsetOp index value (h key)
  case persist key =>
    apply execute_same_outlives rfl rfl h (fun _ => rfl)
    . exact KeyOp.keepsLive_persistOp
    . exact KeyOp.restores_persistOp (h key)
  case setNx key value =>
    apply execute_same_outlives rfl rfl h (fun _ => rfl)
    . exact KeyOp.keepsLive_setnxOp value
    . apply KeyOp.restores_setnxOp value (h key)
      intro _
      exact Option.isNone_iff_eq_none.mp (Option.isSome_eq_false_iff.mp hrevives)
  case getSet key value =>
    apply execute_same_outlives rfl rfl h (fun _ => rfl)
    . exact KeyOp.keepsLive_getsetOp value
    . apply KeyOp.restores_getsetOp value (h key)
      intro _ type htype
      simp only [Command.revives, htype, Option.any_some] at hrevives
      simpa using hrevives
  case set key value seconds => exact execute_set_outlives hle h key value seconds
  case expire key seconds => exact execute_expire_outlives hle h key seconds
  case del keys => exact h.del keys
  case mSet pairs => exact h.mset pairs
  case rename source target => exact h.rename (hrename source target rfl) target
  case flushAll =>
    intro name
    have hempty : ∀ now, live now (∅ : Store) name = none := fun now => LiveMap.live_empty
    show Restores (live env.now ∅ name) _ (live env'.now ∅ name)
    rw [hempty, hempty]
    exact restores_none _

end

end RedisClone
