import RedisClone.Keyspace.KeyOp

/-!
This module contains what the commands on a collection do to an entry that holds one and has no deadline,
where a collection without elements is a missing key.
-/

namespace RedisClone

theorem KeyOp.reply_eq {α : Type} {op : KeyOp α} {found found' : Option Entry} {result : α}
    (h : op found = (found', result)) (encode : α → String)
    : op.reply encode found = (found', encode result) := by
  unfold reply
  rw [h]

/--
A kind of collection that a key can hold.
-/
structure Collection (γ : Type) where
  wrap : γ → Value
  empty : γ
  isEmpty : γ → Bool
  isEmpty_iff : ∀ items, isEmpty items = true ↔ items = empty

namespace Collection

variable {γ α : Type} (kind : Collection γ) {items items' : γ}

def entry (items : γ) : Option Entry :=
  if kind.isEmpty items then none else some { value := kind.wrap items, expiresAt := none }

theorem filter_entry (now : Instant) (items : γ)
    : (kind.entry items).filter (Entry.isLive now) = kind.entry items := by
  unfold entry
  split <;> rfl

theorem entry_empty : kind.entry kind.empty = none := by
  exact if_pos ((kind.isEmpty_iff kind.empty).mpr rfl)

theorem entry_of_nonempty (h : kind.isEmpty items = false)
    : kind.entry items = some { value := kind.wrap items, expiresAt := none } := by
  exact if_neg (by simp [h])

theorem getD_entry (items : γ)
    : (kind.entry items).getD { value := kind.wrap kind.empty, expiresAt := none }
        =
      { value := kind.wrap items, expiresAt := none } := by
  cases h : kind.isEmpty items with
  | true =>
    rw [(kind.isEmpty_iff items).mp h, entry_empty]
    rfl
  | false =>
    rw [kind.entry_of_nonempty h]
    rfl

theorem updateOp_entry {act : Value → Except StoreError (Value × α)} {result : α}
    (h : act (kind.wrap items) = .ok (kind.wrap items', result)) (hitems' : kind.isEmpty items' = false)
    : KeyOp.updateOp (kind.wrap kind.empty) act (kind.entry items)
        =
      (kind.entry items', .ok result) := by
  unfold KeyOp.updateOp
  rw [getD_entry, kind.entry_of_nonempty hitems']
  simp [h]

theorem updateOp_entry_error {act : Value → Except StoreError (Value × α)} {error : StoreError}
    (h : act (kind.wrap items) = .error error) (hitems : kind.isEmpty items = false)
    : KeyOp.updateOp (kind.wrap kind.empty) act (kind.entry items)
        =
      (kind.entry items, .error error) := by
  unfold KeyOp.updateOp
  rw [getD_entry, kind.entry_of_nonempty hitems]
  simp [h]

theorem removeOp_entry {absent : α} {act : Value → Except StoreError (Value × α × Bool)} {result : α}
    (h : act (kind.wrap items) = .ok (kind.wrap items', result, kind.isEmpty items'))
    (hempty : items = kind.empty → items' = kind.empty ∧ result = absent)
    : KeyOp.removeOp absent act (kind.entry items) = (kind.entry items', .ok result) := by
  cases hitems : kind.isEmpty items with
  | true =>
    obtain ⟨rfl, rfl⟩ := hempty ((kind.isEmpty_iff items).mp hitems)
    rw [(kind.isEmpty_iff items).mp hitems, entry_empty]
    rfl
  | false =>
    rw [kind.entry_of_nonempty hitems]
    simp only [KeyOp.removeOp, h, entry]

theorem readOp_entry {absent result : α} {read : Entry → α}
    (h : read { value := kind.wrap items, expiresAt := none } = result)
    (hempty : items = kind.empty → absent = result)
    : KeyOp.readOp absent read (kind.entry items) = (kind.entry items, result) := by
  cases hitems : kind.isEmpty items with
  | true =>
    have hnil := (kind.isEmpty_iff items).mp hitems
    rw [hempty hnil, hnil, entry_empty]
    rfl
  | false =>
    rw [kind.entry_of_nonempty hitems]
    simp only [KeyOp.readOp, h]

end Collection
end RedisClone
