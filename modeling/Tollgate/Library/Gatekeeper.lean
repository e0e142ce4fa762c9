import Mathlib

/-!
# Gates keyed by address

Decisions are made about keys, and a gate enforces them by address. `Gate` has an address book, the
set of keys that are active, and the set of addresses that are open. Deciding about a key opens or
shuts the address it has at that moment; moving a key to another address, and forgetting its
address, touch no address.

A gate is sound when every open address is the address of an active key, and complete when the
address of every active key is open. For each operation the section says exactly when it keeps the
one or the other: a decision always keeps soundness, and keeps completeness unless it shuts an
address that another active key has; a move keeps completeness unless an active key moves to a shut
address, and keeps soundness unless an active key leaves an open address that no other active key
has.
-/

set_option autoImplicit false
set_option relaxedAutoImplicit false

/-- An address book, the active keys, and the open addresses. -/
@[ext]
structure Gate (Key Address : Type*) where
  address : Key → Option Address
  active : Key → Prop
  opened : Set Address

namespace Gate

variable {Key Address : Type*} [DecidableEq Key]

/-- Make a key active or not, and open or shut the address it has. -/
def decide (gate : Gate Key Address) (key : Key) (allowed : Bool) :
    Gate Key Address where
  address := gate.address
  active := Function.update gate.active key (allowed = true)
  opened := {place | (gate.address key = some place ∧ allowed = true) ∨
    (gate.address key ≠ some place ∧ place ∈ gate.opened)}

/-- Give a key another address. -/
def move (gate : Gate Key Address) (key : Key) (place : Address) :
    Gate Key Address :=
  { gate with address := Function.update gate.address key (some place) }

/-- Forget the address of a key. -/
def forget (gate : Gate Key Address) (key : Key) : Gate Key Address :=
  { gate with address := Function.update gate.address key none }

/-- Every open address is the address of an active key. -/
def Sound (gate : Gate Key Address) : Prop :=
  ∀ place ∈ gate.opened, ∃ key, gate.address key = some place ∧ gate.active key

/-- The address of every active key is open. -/
def Complete (gate : Gate Key Address) : Prop :=
  ∀ key place, gate.active key → gate.address key = some place → place ∈ gate.opened

/-- Another active key has the address of `key`. -/
def Shared (gate : Gate Key Address) (key : Key) : Prop :=
  ∃ other place, other ≠ key ∧ gate.active other ∧ gate.address other = some place ∧
    gate.address key = some place

/-- An active key would leave an open address that no other active key has. -/
def Abandons (gate : Gate Key Address) (key : Key) (place : Address) : Prop :=
  gate.active key ∧ ¬ gate.Shared key ∧
    ∃ old ∈ gate.opened, gate.address key = some old ∧ old ≠ place

variable {gate : Gate Key Address} {key : Key}

/-! ### Decisions -/

@[simp] theorem address_decide (allowed : Bool) :
    (gate.decide key allowed).address = gate.address := rfl

@[simp] theorem active_decide_self (allowed : Bool) :
    (gate.decide key allowed).active key ↔ allowed = true := by
  simp [decide]

@[simp] theorem active_decide_of_ne {other : Key} (hne : other ≠ key) (allowed : Bool) :
    (gate.decide key allowed).active other ↔ gate.active other := by
  simp [decide, hne]

/-- The address of the key is open as decided. -/
theorem mem_opened_decide_self {place : Address} (hkey : gate.address key = some place)
    (allowed : Bool) : place ∈ (gate.decide key allowed).opened ↔ allowed = true := by
  simp [decide, hkey]

/-- Other addresses are open or shut as before. -/
theorem mem_opened_decide_other {place : Address} (hkey : gate.address key ≠ some place)
    (allowed : Bool) : place ∈ (gate.decide key allowed).opened ↔ place ∈ gate.opened := by
  simp [decide, hkey]

/-- A decision about a key overrides whether it was active. -/
theorem decide_congr {other : Gate Key Address} (haddress : gate.address = other.address)
    (hopened : gate.opened = other.opened)
    (hactive : ∀ third, third ≠ key → (gate.active third ↔ other.active third)) (allowed : Bool) :
    gate.decide key allowed = other.decide key allowed := by
  refine Gate.ext haddress (funext fun third ↦ ?_) (by simp only [decide, haddress, hopened])
  by_cases hthird : third = key
  · rw [hthird]
    exact propext ((active_decide_self allowed).trans (active_decide_self allowed).symm)
  · refine propext ?_
    rw [active_decide_of_ne hthird, active_decide_of_ne hthird]
    exact hactive third hthird

/-- A decision keeps a sound gate sound. -/
theorem Sound.decide (hsound : gate.Sound) (allowed : Bool) :
    (gate.decide key allowed).Sound := by
  intro place hplace
  by_cases hkey : gate.address key = some place
  · rw [mem_opened_decide_self hkey] at hplace
    exact ⟨key, hkey, (active_decide_self allowed).mpr hplace⟩
  · rw [mem_opened_decide_other hkey] at hplace
    obtain ⟨other, haddress, hactive⟩ := hsound place hplace
    -- The key that vouches for the address is another one, so the decision leaves it active.
    have hne : other ≠ key := by
      rintro rfl
      exact hkey haddress
    exact ⟨other, haddress, (active_decide_of_ne hne allowed).mpr hactive⟩

/-- Letting a key through keeps a complete gate complete. -/
theorem Complete.allow (hcomplete : gate.Complete) : (gate.decide key true).Complete := by
  intro other place hactive haddress
  by_cases hkey : gate.address key = some place
  · rw [mem_opened_decide_self hkey]
  · have hne : other ≠ key := by
      rintro rfl
      exact hkey haddress
    rw [mem_opened_decide_other hkey]
    exact hcomplete other place ((active_decide_of_ne hne true).mp hactive) haddress

/-- Blocking a key keeps a complete gate complete exactly when no other active key has its
address. -/
theorem Complete.deny_iff (hcomplete : gate.Complete) :
    (gate.decide key false).Complete ↔ ¬ gate.Shared key := by
  constructor
  · rintro hafter ⟨other, place, hne, hactive, haddress, hkey⟩
    have hopen := hafter other place ((active_decide_of_ne hne false).mpr hactive) haddress
    rw [mem_opened_decide_self hkey] at hopen
    exact absurd hopen (by simp)
  · intro hunshared other place hactive haddress
    have hne : other ≠ key := by
      rintro rfl
      exact absurd ((active_decide_self false).mp hactive) (by simp)
    have hwas := (active_decide_of_ne hne false).mp hactive
    rw [mem_opened_decide_other fun hkey ↦ hunshared ⟨other, place, hne, hwas, haddress, hkey⟩]
    exact hcomplete other place hwas haddress

/-- A key that is active at a shut address stays so while others are blocked. -/
theorem not_complete_deny (hincomplete : ¬ gate.Complete) (hactive : ¬ gate.active key) :
    ¬ (gate.decide key false).Complete := by
  intro hafter
  refine hincomplete fun other place hother haddress ↦ ?_
  have hne : other ≠ key := by
    rintro rfl
    exact hactive hother
  have hopen := hafter other place ((active_decide_of_ne hne false).mpr hother) haddress
  by_cases hkey : gate.address key = some place
  · rw [mem_opened_decide_self hkey] at hopen
    exact absurd hopen (by simp)
  · rwa [mem_opened_decide_other hkey] at hopen

/-! ### Moves -/

@[simp] theorem address_move_self (place : Address) :
    (gate.move key place).address key = some place := by
  simp [move]

@[simp] theorem address_move_of_ne {other : Key} (hne : other ≠ key) (place : Address) :
    (gate.move key place).address other = gate.address other := by
  simp [move, hne]

@[simp] theorem active_move (place : Address) : (gate.move key place).active = gate.active := rfl

@[simp] theorem opened_move (place : Address) : (gate.move key place).opened = gate.opened := rfl

/-- A move keeps a sound gate sound exactly when no active key abandons its address. -/
theorem Sound.move_iff (hsound : gate.Sound) (place : Address) :
    (gate.move key place).Sound ↔ ¬ gate.Abandons key place := by
  constructor
  · rintro hafter ⟨-, hunshared, old, hold, haddress, hne⟩
    obtain ⟨other, hother, hactive⟩ := hafter old hold
    by_cases hkey : other = key
    · rw [hkey, address_move_self] at hother
      exact hne (Option.some.inj hother).symm
    · rw [address_move_of_ne hkey] at hother
      exact hunshared ⟨other, old, hkey, hactive, hother, haddress⟩
  · intro hkeeps old hold
    obtain ⟨other, hother, hactive⟩ := hsound old hold
    by_cases hkey : other = key
    · subst hkey
      by_cases hsame : old = place
      · exact ⟨other, by rw [hsame, address_move_self], hactive⟩
      · -- Somebody else must vouch for the address that the key leaves.
        have hshared : gate.Shared other := by
          by_contra hunshared
          exact hkeeps ⟨hactive, hunshared, old, hold, hother, hsame⟩
        obtain ⟨third, there, hne, hthird, hthere, hkey⟩ := hshared
        rw [hother] at hkey
        obtain rfl := Option.some.inj hkey
        exact ⟨third, by rw [address_move_of_ne hne, hthere], hthird⟩
    · exact ⟨other, by rw [address_move_of_ne hkey, hother], hactive⟩

/-- A move keeps a complete gate complete exactly when an active key moves to an open address. -/
theorem Complete.move_iff (hcomplete : gate.Complete) (place : Address) :
    (gate.move key place).Complete ↔ (gate.active key → place ∈ gate.opened) := by
  constructor
  · exact fun hafter hactive ↦ hafter key place hactive (address_move_self place)
  · intro hopen other there hactive hthere
    by_cases hkey : other = key
    · rw [hkey, address_move_self] at hthere
      rw [← Option.some.inj hthere]
      exact hopen (hkey ▸ hactive)
    · rw [address_move_of_ne hkey] at hthere
      exact hcomplete other there hactive hthere

/-! ### Forgetting -/

@[simp] theorem address_forget_self : (gate.forget key).address key = none := by
  simp [forget]

@[simp] theorem address_forget_of_ne {other : Key} (hne : other ≠ key) :
    (gate.forget key).address other = gate.address other := by
  simp [forget, hne]

@[simp] theorem active_forget : (gate.forget key).active = gate.active := rfl

@[simp] theorem opened_forget : (gate.forget key).opened = gate.opened := rfl

/-- Forgetting a key that is not active keeps a sound gate sound. -/
theorem Sound.forget (hsound : gate.Sound) (hactive : ¬ gate.active key) :
    (gate.forget key).Sound := by
  intro place hplace
  obtain ⟨other, haddress, hother⟩ := hsound place hplace
  have hne : other ≠ key := by
    rintro rfl
    exact hactive hother
  exact ⟨other, by rw [address_forget_of_ne hne, haddress], hother⟩

/-- Forgetting a key that is not active makes no difference to completeness. -/
theorem complete_forget_iff (hactive : ¬ gate.active key) :
    (gate.forget key).Complete ↔ gate.Complete := by
  have haddress {other : Key} (hother : gate.active other) :
      (gate.forget key).address other = gate.address other := by
    refine address_forget_of_ne fun heq ↦ ?_
    rw [heq] at hother
    exact hactive hother
  constructor
  · exact fun hafter other place hother hplace ↦
      hafter other place hother (by rw [haddress hother, hplace])
  · exact fun hcomplete other place hother hplace ↦
      hcomplete other place hother (by rw [← haddress hother, hplace])

/-! ### Dropping keys that are not active -/

/-- Block a key and forget its address. -/
def drop (gate : Gate Key Address) (key : Key) : Gate Key Address :=
  (gate.decide key false).forget key

theorem not_active_decide_false : ¬ (gate.decide key false).active key := by
  simp

theorem Sound.drop (hsound : gate.Sound) : (gate.drop key).Sound :=
  (hsound.decide false).forget not_active_decide_false

/-- Dropping a key keeps a complete gate complete exactly when no other active key has its
address. -/
theorem Complete.drop_iff (hcomplete : gate.Complete) :
    (gate.drop key).Complete ↔ ¬ gate.Shared key := by
  rw [Gate.drop, complete_forget_iff not_active_decide_false, hcomplete.deny_iff]

theorem not_complete_drop (hincomplete : ¬ gate.Complete) (hactive : ¬ gate.active key) :
    ¬ (gate.drop key).Complete := by
  rw [Gate.drop, complete_forget_iff not_active_decide_false]
  exact not_complete_deny hincomplete hactive

/-- Dropping a key that is not active leaves the active keys as they are. -/
theorem active_drop (hactive : ¬ gate.active key) (other : Key) :
    (gate.drop key).active other ↔ gate.active other := by
  by_cases hkey : other = key
  · rw [hkey]
    exact iff_of_false not_active_decide_false hactive
  · exact active_decide_of_ne hkey false

/-- Assumes: keys that are not active. Dropping them keeps a sound gate sound. -/
theorem Sound.dropAll (hsound : gate.Sound) (keys : List Key) :
    (keys.foldl Gate.drop gate).Sound := by
  induction keys generalizing gate with
  | nil => exact hsound
  | cons first rest ih => exact ih hsound.drop

theorem not_complete_dropAll (hincomplete : ¬ gate.Complete) {keys : List Key}
    (hactive : ∀ key ∈ keys, ¬ gate.active key) : ¬ (keys.foldl Gate.drop gate).Complete := by
  induction keys generalizing gate with
  | nil => exact hincomplete
  | cons first rest ih =>
    have hfirst := hactive first List.mem_cons_self
    refine ih (not_complete_drop hincomplete hfirst) fun key hkey ↦ ?_
    rw [active_drop hfirst]
    exact hactive key (List.mem_cons_of_mem _ hkey)

/-- Dropping a key that is not active leaves the addresses that other keys share as they are. -/
theorem shared_drop_iff (hactive : ¬ gate.active key) {other : Key} (hne : other ≠ key) :
    (gate.drop key).Shared other ↔ gate.Shared other := by
  have haddress {third : Key} (hthird : third ≠ key) :
      (gate.drop key).address third = gate.address third := address_forget_of_ne hthird
  have hkeep {third : Key} (hthird : gate.active third) : third ≠ key := by
    rintro rfl
    exact hactive hthird
  unfold Shared
  constructor
  · rintro ⟨third, place, hother, hthird, hplace, hsame⟩
    rw [active_drop hactive] at hthird
    rw [haddress (hkeep hthird)] at hplace
    rw [haddress hne] at hsame
    exact ⟨third, place, hother, hthird, hplace, hsame⟩
  · rintro ⟨third, place, hother, hthird, hplace, hsame⟩
    refine ⟨third, place, hother, (active_drop hactive third).mpr hthird, ?_, ?_⟩
    · rw [haddress (hkeep hthird), hplace]
    · rw [haddress hne, hsame]

/-- Assumes: keys that are not active. Dropping them keeps a complete gate complete exactly when no
active key has an address of theirs. -/
theorem Complete.dropAll_iff (hcomplete : gate.Complete) {keys : List Key}
    (hactive : ∀ key ∈ keys, ¬ gate.active key) :
    (keys.foldl Gate.drop gate).Complete ↔ ∀ key ∈ keys, ¬ gate.Shared key := by
  induction keys generalizing gate with
  | nil => exact iff_of_true hcomplete (by simp)
  | cons first rest ih =>
    have hfirst := hactive first List.mem_cons_self
    have hrest : ∀ key ∈ rest, ¬ (gate.drop first).active key := by
      intro key hkey
      rw [active_drop hfirst]
      exact hactive key (List.mem_cons_of_mem _ hkey)
    rw [List.foldl_cons, List.forall_mem_cons]
    by_cases hshared : gate.Shared first
    · refine iff_of_false (not_complete_dropAll ?_ hrest) fun hnone ↦ hnone.1 hshared
      rw [hcomplete.drop_iff]
      exact not_not.mpr hshared
    · rw [ih (hcomplete.drop_iff.mpr hshared) hrest]
      constructor
      · intro hall
        refine ⟨hshared, fun key hkey ↦ ?_⟩
        by_cases hsame : key = first
        · rwa [hsame]
        · rw [← shared_drop_iff hfirst hsame]
          exact hall key hkey
      · rintro ⟨-, hall⟩ key hkey
        by_cases hsame : key = first
        · rw [hsame]
          rintro ⟨other, place, -, -, -, hplace⟩
          rw [Gate.drop, address_forget_self] at hplace
          exact absurd hplace (by simp)
        · rw [shared_drop_iff hfirst hsame]
          exact hall key hkey

end Gate
