import N8n.Foundations.InsertionMap
import N8n.Foundations.Transition

/-!
# The connection pool manager

`getConnection` looks for a pool under the key of its options, and has one created if there is none.
It waits for the creation, and then registers the pool under the key without looking again. A pool
that is aborted is removed from the register by the listener of its abort signal, which looks for
the key and not for the pool.

So two creations for one key that overlap leave a pool that nobody finds any more, and whose abort
takes the other one with it. As long as no creation ends while its key is taken, every pool is found
under its key until it is aborted (`poolsTracked_iff`).

A creation is known by its number, which also stands for the pool and for the abort controller.
What runs in a handler of the caller is not modelled, but it may abort its controller at any time.
-/

namespace N8n

namespace ConnectionPoolManager

variable {Key Options : Type} [DecidableEq Key]

abbrev Creation := ℕ

/-- `ttl`, in milliseconds. -/
def ttl : ℤ := 5 * 60 * 1000

structure Registration where
  pool : Creation
  lastUsed : ℤ
  deriving DecidableEq, Repr

structure State (Key : Type) where
  map : InsertionMap Key Registration := .empty
  /-- The calls that wait for their `fallBackHandler`, with their keys. -/
  pending : InsertionMap Creation Key := .empty
  /-- The controllers that are aborted. -/
  aborted : List Creation := []
  /-- The listeners of the abort signals, each with the key that it cleans up. -/
  listeners : InsertionMap Creation Key := .empty
  /-- The pools that `getConnection` returned, with the key it was called for. -/
  returned : List (Creation × Key) := []
  /-- The number of creations so far. -/
  created : ℕ := 0

/-! ### Aborting and cleaning up -/

theorem size_erase_lt {m : InsertionMap Key Registration} {key : Key}
    {registration : Registration} (h : m.get? key = some registration) :
    (m.erase key).size < m.size := by
  have hlength := (InsertionMap.entries_perm_of_get? h).length_eq
  rw [List.length_cons] at hlength
  simp only [InsertionMap.size]
  omega

mutual

/-- `abort` on a controller: the signal is set before its listener runs. -/
def State.abort (st : State Key) (pool : Creation) : State Key :=
  if pool ∈ st.aborted then st
  else
    let st' := { st with aborted := pool :: st.aborted }
    match st.listeners.get? pool with
    | none => st'
    | some key => st'.cleanupConnection key
termination_by (st.map.size, 1)

def State.cleanupConnection (st : State Key) (key : Key) : State Key :=
  match _h : st.map.get? key with
  | none => st
  | some registration => { st with map := st.map.erase key }.abort registration.pool
termination_by (st.map.size, 0)
decreasing_by exact .left _ _ (size_erase_lt _h)

end

def State.cleanupStaleConnections (st : State Key) (now : ℤ) : State Key :=
  st.map.entries.foldl (fun st (key, registration) =>
    if now - registration.lastUsed > ttl then st.cleanupConnection key else st) st

def State.purgeConnections (st : State Key) : State Key :=
  st.map.keys.foldl (fun st key => st.cleanupConnection key) st

/-! ### Getting a connection -/

/-- `getConnection`, up to the call of the `fallBackHandler`. -/
def State.getConnection (st : State Key) (key : Key) (now : ℤ) : State Key :=
  match st.map.get? key with
  | some value =>
    { st with
      map := st.map.set key { value with lastUsed := now }
      returned := (value.pool, key) :: st.returned }
  | none =>
    { st with pending := st.pending.set st.created key, created := st.created + 1 }

/-- The rest of `getConnection`, once there is a pool. An aborted attempt throws. -/
def State.completed (st : State Key) (pool : Creation) (key : Key) (now : ℤ) : State Key :=
  let st := { st with pending := st.pending.erase pool }
  if pool ∈ st.aborted then st
  else
    { st with
      map := st.map.set key ⟨pool, now⟩
      listeners := st.listeners.set pool key
      returned := (pool, key) :: st.returned }

inductive Event (Options : Type) where
  | getConnection (options : Options) (now : ℤ)
  /-- The `fallBackHandler` of a call gives a pool. -/
  | completed (pool : Creation) (now : ℤ)
  /-- It fails, and the call with it. -/
  | failed (pool : Creation)
  | abort (pool : Creation)
  | cleanupStaleConnections (now : ℤ)
  | purgeConnections

/-- One step. `makeKey` gives the key of the options. -/
def State.step (makeKey : Options → Key) (st : State Key) : Event Options → Option (State Key)
  | .getConnection options now => some (st.getConnection (makeKey options) now)
  | .completed pool now => (st.pending.get? pool).map fun key => st.completed pool key now
  | .failed pool =>
    (st.pending.get? pool).map fun _ => { st with pending := st.pending.erase pool }
  | .abort pool => if pool < st.created then some (st.abort pool) else none
  | .cleanupStaleConnections now => some (st.cleanupStaleConnections now)
  | .purgeConnections => some st.purgeConnections

/-! ### Pools that are tracked -/

/-- Every pool that was returned is registered under its key until it is aborted. -/
def Tracked (st : State Key) : Prop :=
  ∀ pool key, (pool, key) ∈ st.returned → pool ∉ st.aborted →
    ∃ registration, st.map.get? key = some registration ∧ registration.pool = pool

/-- So there is one live pool for a key at most. -/
theorem Tracked.unique {st : State Key} (h : Tracked st) {pool pool' : Creation} {key : Key}
    (hpool : (pool, key) ∈ st.returned) (hlive : pool ∉ st.aborted)
    (hpool' : (pool', key) ∈ st.returned) (hlive' : pool' ∉ st.aborted) : pool = pool' := by
  obtain ⟨registration, hget, rfl⟩ := h pool key hpool hlive
  obtain ⟨registration', hget', rfl⟩ := h pool' key hpool' hlive'
  rw [hget] at hget'
  rw [Option.some.inj hget']

/-- The event is meant for a registration: its pool is aborted, it is stale, or all are purged. -/
def Event.Removes (registration : Registration) : Event Options → Prop
  | .abort pool => pool = registration.pool
  | .cleanupStaleConnections now => now - registration.lastUsed > ttl
  | .purgeConnections => True
  | _ => False

/-- No other registration is removed or aborted. -/
def KeepsOthers (makeKey : Options → Key) (st : State Key) (e : Event Options) : Prop :=
  ∀ st', st.step makeKey e = some st' →
    ∀ key registration, st.map.get? key = some registration → ¬ e.Removes registration →
      ∃ lastUsed, st'.map.get? key = some { registration with lastUsed } ∧
        registration.pool ∉ st'.aborted

/-- No creation that ends, and was not aborted, finds its key taken. -/
def EndsAlone (st : State Key) : Event Options → Prop
  | .completed pool _ => pool ∉ st.aborted → ∀ key, st.pending.get? pool = some key →
      st.map.get? key = none
  | _ => True

/-- What holds as long as no creation finds its key taken. -/
structure Sound (st : State Key) : Prop where
  tracked : Tracked st
  /-- A registered pool is live, was returned, and listens for its abort. -/
  registered : ∀ key registration, st.map.get? key = some registration →
    registration.pool ∉ st.aborted ∧ st.listeners.get? registration.pool = some key
  listening : ∀ pool key, st.listeners.get? pool = some key ↔ (pool, key) ∈ st.returned
  /-- A creation that is waited for has not returned. -/
  waiting : ∀ pool, st.pending.get? pool ≠ none → st.listeners.get? pool = none
  numbered : ∀ pool, st.pending.get? pool ≠ none ∨ st.listeners.get? pool ≠ none →
    pool < st.created

theorem Sound.init : Sound ({} : State Key) where
  tracked := fun _ _ hreturned => absurd hreturned List.not_mem_nil
  registered := fun _ _ hget => nomatch hget
  listening := fun _ _ => iff_of_false nofun List.not_mem_nil
  waiting := fun _ _ => rfl
  numbered := fun _ h => absurd h (by simp)

variable {st : State Key} {pool : Creation} {key : Key} {registration : Registration} {now : ℤ}

/-! ### Aborting and cleaning up, while all is sound -/

/-- A registered pool and its registration go together. -/
theorem Sound.cleanupConnection_eq (h : Sound st) (hget : st.map.get? key = some registration) :
    st.cleanupConnection key =
      { st with map := st.map.erase key, aborted := registration.pool :: st.aborted } := by
  obtain ⟨hlive, hlistener⟩ := h.registered key registration hget
  have hgone : (st.map.erase key).get? key = none := by
    rw [InsertionMap.get?_erase, if_pos rfl]
  rw [State.cleanupConnection]
  split
  · next hnone => exact absurd (hget.symm.trans hnone) nofun
  · next registration' hget' =>
    obtain rfl := Option.some.inj (hget.symm.trans hget')
    rw [State.abort, if_neg hlive]
    simp only [hlistener]
    -- the listener finds the key free
    rw [State.cleanupConnection]
    split
    · rfl
    · next hagain => exact absurd (hgone.symm.trans hagain) nofun

theorem State.cleanupConnection_of_get?_eq_none (hget : st.map.get? key = none) :
    st.cleanupConnection key = st := by
  rw [State.cleanupConnection]
  split
  · rfl
  · next hsome => exact absurd (hget.symm.trans hsome) nofun

/-- The abort of a pool that was returned takes its registration along. -/
theorem Sound.abort_eq (h : Sound st) (hlive : pool ∉ st.aborted)
    (hlistener : st.listeners.get? pool = some key) :
    st.abort pool = { st with map := st.map.erase key, aborted := pool :: st.aborted } := by
  obtain ⟨registration, hget, rfl⟩ := h.tracked pool key ((h.listening pool key).mp hlistener) hlive
  rw [State.abort, if_neg hlive]
  simp only [hlistener]
  rw [State.cleanupConnection]
  split
  · next hnone => exact absurd (hget.symm.trans hnone) nofun
  · next registration' hget' =>
    obtain rfl := Option.some.inj (hget.symm.trans hget')
    rw [State.abort, if_pos List.mem_cons_self]

/-- The abort of a creation that has not returned. -/
theorem State.abort_of_not_listening (hlive : pool ∉ st.aborted)
    (hlistener : st.listeners.get? pool = none) :
    st.abort pool = { st with aborted := pool :: st.aborted } := by
  rw [State.abort, if_neg hlive]
  simp only [hlistener]

/-- A registration is removed together with its pool. -/
theorem Sound.remove (h : Sound st) (hget : st.map.get? key = some registration) :
    Sound { st with map := st.map.erase key, aborted := registration.pool :: st.aborted } where
  tracked := fun pool' key' hreturned hlive => by
    obtain ⟨hne, hlive⟩ := not_or.mp (List.mem_cons.not.mp hlive)
    obtain ⟨registration', hget', rfl⟩ := h.tracked pool' key' hreturned hlive
    have hkey : key' ≠ key := by
      rintro rfl
      exact hne (congrArg Registration.pool (Option.some.inj (hget'.symm.trans hget)))
    exact ⟨registration', by rw [InsertionMap.get?_erase, if_neg hkey, hget'], rfl⟩
  registered := fun key' registration' hget' => by
    rw [InsertionMap.get?_erase] at hget'
    split_ifs at hget' with hkey
    obtain ⟨hlive, hlistener⟩ := h.registered key' registration' hget'
    refine ⟨List.mem_cons.not.mpr (not_or.mpr ⟨fun heq => ?_, hlive⟩), hlistener⟩
    have hlistener' := (h.registered key registration hget).2
    rw [← heq, hlistener] at hlistener'
    exact hkey (Option.some.inj hlistener')
  listening := h.listening
  waiting := h.waiting
  numbered := h.numbered

/-- A creation that has not returned has no registration to lose. -/
theorem Sound.mark (h : Sound st) (hlistener : st.listeners.get? pool = none) :
    Sound { st with aborted := pool :: st.aborted } where
  tracked := fun pool' key' hreturned hlive =>
    h.tracked pool' key' hreturned (not_or.mp (List.mem_cons.not.mp hlive)).2
  registered := fun key' registration' hget' => by
    obtain ⟨hlive, hlistener'⟩ := h.registered key' registration' hget'
    refine ⟨List.mem_cons.not.mpr (not_or.mpr ⟨fun heq => ?_, hlive⟩), hlistener'⟩
    rw [heq, hlistener] at hlistener'
    exact nomatch hlistener'
  listening := h.listening
  waiting := h.waiting
  numbered := h.numbered

/-- The abort of a pool, and the registrations of the others. -/
theorem Sound.abort (h : Sound st) (pool : Creation) :
    Sound (st.abort pool) ∧ ∀ key registration, st.map.get? key = some registration →
      pool ≠ registration.pool → (st.abort pool).map.get? key = some registration := by
  by_cases hlive : pool ∈ st.aborted
  · rw [State.abort, if_pos hlive]
    exact ⟨h, fun _ _ hget _ => hget⟩
  · cases hlistener : st.listeners.get? pool with
    | none =>
      rw [State.abort_of_not_listening hlive hlistener]
      exact ⟨h.mark hlistener, fun _ _ hget _ => hget⟩
    | some key =>
      obtain ⟨registration, hget, rfl⟩ :=
        h.tracked pool key ((h.listening pool key).mp hlistener) hlive
      rw [h.abort_eq hlive hlistener]
      refine ⟨h.remove hget, fun key' registration' hget' hne => ?_⟩
      have hkey : key' ≠ key := by
        rintro rfl
        exact hne (congrArg Registration.pool (Option.some.inj (hget.symm.trans hget')))
      rw [InsertionMap.get?_erase, if_neg hkey, hget']

/-- The clean-up of several keys, and the registrations under the others. -/
theorem Sound.foldl_cleanupConnection (h : Sound st) (keys : List Key) :
    Sound (keys.foldl (fun st key => st.cleanupConnection key) st) ∧
      ∀ key registration, key ∉ keys → st.map.get? key = some registration →
        (keys.foldl (fun st key => st.cleanupConnection key) st).map.get? key =
          some registration := by
  induction keys generalizing st with
  | nil => exact ⟨h, fun _ _ _ hget => hget⟩
  | cons key keys ih =>
    rw [List.foldl_cons]
    cases hget : st.map.get? key with
    | none =>
      rw [State.cleanupConnection_of_get?_eq_none hget]
      exact ⟨(ih h).1, fun key' registration' hnot => (ih h).2 key' registration'
        fun hmem => hnot (List.mem_cons_of_mem _ hmem)⟩
    | some registration =>
      rw [h.cleanupConnection_eq hget]
      obtain ⟨hsound, hkept⟩ := ih (h.remove hget)
      refine ⟨hsound, fun key' registration' hnot hget' => ?_⟩
      obtain ⟨hne, hnot⟩ := not_or.mp (List.mem_cons.not.mp hnot)
      refine hkept key' registration' hnot ?_
      rw [InsertionMap.get?_erase, if_neg hne, hget']

theorem Sound.cleanupStaleConnections (h : Sound st) (now : ℤ) :
    Sound (st.cleanupStaleConnections now) ∧ ∀ key registration,
      st.map.get? key = some registration → ¬ now - registration.lastUsed > ttl →
        (st.cleanupStaleConnections now).map.get? key = some registration := by
  have hfold : st.cleanupStaleConnections now =
      ((st.map.entries.filter fun e => now - e.2.lastUsed > ttl).map Prod.fst).foldl
        (fun st key => st.cleanupConnection key) st := by
    rw [List.foldl_map, List.foldl_filter]
    simp only [decide_eq_true_eq]
    rfl
  rw [hfold]
  obtain ⟨hsound, hkept⟩ := h.foldl_cleanupConnection
    ((st.map.entries.filter fun e => now - e.2.lastUsed > ttl).map Prod.fst)
  refine ⟨hsound, fun key registration hget hfresh => hkept key registration ?_ hget⟩
  intro hmem
  obtain ⟨⟨key', registration'⟩, hstale, rfl⟩ := List.mem_map.mp hmem
  obtain ⟨hentry, hstale⟩ := List.mem_filter.mp hstale
  obtain rfl := InsertionMap.eq_of_mem hentry (InsertionMap.get?_eq_some_iff.mp hget)
  exact hfresh (of_decide_eq_true hstale)

/-! ### Getting a connection, while all is sound -/

/-- A pool is used once more. -/
theorem Sound.reuse (h : Sound st) (hget : st.map.get? key = some registration) (now : ℤ) :
    Sound { st with
      map := st.map.set key { registration with lastUsed := now }
      returned := (registration.pool, key) :: st.returned } where
  tracked := fun pool' key' hreturned hlive => by
    have hold : ∃ registration', st.map.get? key' = some registration' ∧
        registration'.pool = pool' := by
      obtain heq | hreturned := List.mem_cons.mp hreturned
      · obtain ⟨rfl, rfl⟩ := Prod.mk.inj heq
        exact ⟨registration, hget, rfl⟩
      · exact h.tracked pool' key' hreturned hlive
    obtain ⟨registration', hget', rfl⟩ := hold
    obtain rfl | hkey := eq_or_ne key' key
    · obtain rfl := Option.some.inj (hget.symm.trans hget')
      exact ⟨_, InsertionMap.get?_set_self _ _ _, rfl⟩
    · exact ⟨registration', by rw [InsertionMap.get?_set_of_ne _ hkey, hget'], rfl⟩
  registered := fun key' registration' hget' => by
    obtain rfl | hkey := eq_or_ne key' key
    · rw [InsertionMap.get?_set_self] at hget'
      obtain rfl := Option.some.inj hget'
      exact h.registered key' registration hget
    · rw [InsertionMap.get?_set_of_ne _ hkey] at hget'
      exact h.registered key' registration' hget'
  listening := fun pool' key' => by
    rw [h.listening, List.mem_cons]
    refine ⟨.inr, fun hreturned => ?_⟩
    obtain heq | hreturned := hreturned
    · obtain ⟨rfl, rfl⟩ := Prod.mk.inj heq
      exact (h.listening _ _).mp (h.registered key' registration hget).2
    · exact hreturned
  waiting := h.waiting
  numbered := h.numbered

/-- A creation begins, with a number of its own. -/
theorem Sound.create (h : Sound st) (key : Key) :
    Sound { st with pending := st.pending.set st.created key, created := st.created + 1 } where
  tracked := h.tracked
  registered := h.registered
  listening := h.listening
  waiting := fun pool' hpending => by
    obtain rfl | hne := eq_or_ne pool' st.created
    · by_contra hlistener
      exact absurd (h.numbered _ (.inr hlistener)) (Nat.lt_irrefl _)
    · rw [InsertionMap.get?_set_of_ne _ hne] at hpending
      exact h.waiting pool' hpending
  numbered := fun pool' hnumber => by
    obtain rfl | hne := eq_or_ne pool' st.created
    · exact Nat.lt_succ_self _
    · rw [InsertionMap.get?_set_of_ne _ hne] at hnumber
      exact Nat.lt_succ_of_lt (h.numbered pool' hnumber)

/-- A creation ends without a pool. -/
theorem Sound.fail (h : Sound st) (pool : Creation) :
    Sound { st with pending := st.pending.erase pool } where
  tracked := h.tracked
  registered := h.registered
  listening := h.listening
  waiting := fun pool' hpending => by
    rw [InsertionMap.get?_erase] at hpending
    split_ifs at hpending with hpool
    · exact absurd rfl hpending
    · exact h.waiting pool' hpending
  numbered := fun pool' hnumber => by
    rw [InsertionMap.get?_erase] at hnumber
    refine h.numbered pool' (hnumber.imp_left fun hpending => ?_)
    split_ifs at hpending with hpool
    · exact absurd rfl hpending
    · exact hpending

/-- A creation ends with a pool, and its key is free. -/
theorem Sound.register (h : Sound st) (hpending : st.pending.get? pool = some key)
    (hlive : pool ∉ st.aborted) (hfree : st.map.get? key = none) (now : ℤ) :
    Sound { st with
      pending := st.pending.erase pool
      map := st.map.set key ⟨pool, now⟩
      listeners := st.listeners.set pool key
      returned := (pool, key) :: st.returned } := by
  have hsome : st.pending.get? pool ≠ none := by simp [hpending]
  have hnew : st.listeners.get? pool = none := h.waiting pool hsome
  exact {
    tracked := fun pool' key' hreturned hlive' => by
      obtain heq | hreturned := List.mem_cons.mp hreturned
      · obtain ⟨rfl, rfl⟩ := Prod.mk.inj heq
        exact ⟨_, InsertionMap.get?_set_self _ _ _, rfl⟩
      · obtain ⟨registration, hget, hpool⟩ := h.tracked pool' key' hreturned hlive'
        have hkey : key' ≠ key := by
          rintro rfl
          exact nomatch hfree.symm.trans hget
        exact ⟨registration, by rw [InsertionMap.get?_set_of_ne _ hkey, hget], hpool⟩
    registered := fun key' registration hget => by
      obtain rfl | hkey := eq_or_ne key' key
      · rw [InsertionMap.get?_set_self] at hget
        obtain rfl := Option.some.inj hget
        exact ⟨hlive, InsertionMap.get?_set_self _ _ _⟩
      · rw [InsertionMap.get?_set_of_ne _ hkey] at hget
        obtain ⟨hlive', hlistener⟩ := h.registered key' registration hget
        refine ⟨hlive', ?_⟩
        rw [InsertionMap.get?_set_of_ne _ ?_, hlistener]
        rintro rfl
        exact nomatch hnew.symm.trans hlistener
    listening := fun pool' key' => by
      rw [InsertionMap.get?_set, List.mem_cons]
      split_ifs with hpool
      · subst hpool
        have hnot : (pool', key') ∉ st.returned := fun hreturned =>
          nomatch hnew.symm.trans ((h.listening pool' key').mpr hreturned)
        simp [hnot, eq_comm]
      · simp [h.listening, hpool]
    waiting := fun pool' hpending' => by
      rw [InsertionMap.get?_erase] at hpending'
      split_ifs at hpending' with hpool
      · exact absurd rfl hpending'
      · rw [InsertionMap.get?_set_of_ne _ hpool]
        exact h.waiting pool' hpending'
    numbered := fun pool' hnumber => by
      obtain rfl | hpool := eq_or_ne pool' pool
      · exact h.numbered pool' (.inl hsome)
      · rw [InsertionMap.get?_erase, if_neg hpool, InsertionMap.get?_set_of_ne _ hpool] at hnumber
        exact h.numbered pool' hnumber }

/-! ### Runs -/

variable {makeKey : Options → Key} {st' : State Key} {e : Event Options}

/-- **One step** keeps all sound, and the registrations that it is not meant for, if no creation
ends to find its key taken. -/
theorem Sound.step (h : Sound st) (halone : EndsAlone st e) (hstep : st.step makeKey e = some st') :
    Sound st' ∧ ∀ key registration, st.map.get? key = some registration →
      ¬ e.Removes registration →
        ∃ lastUsed, st'.map.get? key = some { registration with lastUsed } := by
  cases e with
  | getConnection options now =>
    obtain rfl := Option.some.inj hstep
    rw [State.getConnection]
    cases hget : st.map.get? (makeKey options) with
    | none => exact ⟨h.create _, fun _ registration hget' _ => ⟨registration.lastUsed, hget'⟩⟩
    | some value =>
      refine ⟨h.reuse hget now, fun key registration hget' _ => ?_⟩
      obtain rfl | hkey := eq_or_ne key (makeKey options)
      · obtain rfl := Option.some.inj (hget.symm.trans hget')
        exact ⟨now, InsertionMap.get?_set_self _ _ _⟩
      · exact ⟨registration.lastUsed, by rw [InsertionMap.get?_set_of_ne _ hkey, hget']⟩
  | completed pool now =>
    obtain ⟨key, hpending, rfl⟩ := Option.map_eq_some_iff.mp hstep
    rw [State.completed]
    split_ifs with hlive
    · exact ⟨h.fail pool, fun _ registration hget' _ => ⟨registration.lastUsed, hget'⟩⟩
    · have hfree := halone hlive key hpending
      refine ⟨h.register hpending hlive hfree now, fun key' registration hget' _ => ?_⟩
      have hkey : key' ≠ key := by
        rintro rfl
        exact nomatch hfree.symm.trans hget'
      exact ⟨registration.lastUsed, by rw [InsertionMap.get?_set_of_ne _ hkey, hget']⟩
  | failed pool =>
    obtain ⟨key, -, rfl⟩ := Option.map_eq_some_iff.mp hstep
    exact ⟨h.fail pool, fun _ registration hget' _ => ⟨registration.lastUsed, hget'⟩⟩
  | abort pool =>
    rw [State.step] at hstep
    split_ifs at hstep
    obtain rfl := Option.some.inj hstep
    obtain ⟨hsound, hkept⟩ := h.abort pool
    exact ⟨hsound, fun key registration hget' hne =>
      ⟨registration.lastUsed, hkept key registration hget' hne⟩⟩
  | cleanupStaleConnections now =>
    obtain rfl := Option.some.inj hstep
    obtain ⟨hsound, hkept⟩ := h.cleanupStaleConnections now
    exact ⟨hsound, fun key registration hget' hfresh =>
      ⟨registration.lastUsed, hkept key registration hget' hfresh⟩⟩
  | purgeConnections =>
    obtain rfl := Option.some.inj hstep
    exact ⟨(h.foldl_cleanupConnection _).1, fun _ _ _ hnot => absurd trivial hnot⟩

/-- A creation that finds its key taken leaves the pool of the other one behind. -/
theorem Sound.not_tracked_of_not_endsAlone (h : Sound st) (hnot : ¬ EndsAlone st e)
    (hstep : st.step makeKey e = some st') : ¬ Tracked st' := by
  cases e with
  | completed pool now =>
    simp only [EndsAlone, not_forall] at hnot
    obtain ⟨hlive, key, hpending, hget⟩ := hnot
    obtain ⟨registration, hget⟩ := Option.ne_none_iff_exists'.mp hget
    obtain ⟨key', hpending', rfl⟩ := Option.map_eq_some_iff.mp hstep
    obtain rfl := Option.some.inj (hpending.symm.trans hpending')
    obtain ⟨hlive', hlistener⟩ := h.registered key registration hget
    rw [State.completed, if_neg hlive]
    intro htracked
    obtain ⟨registration', hget', hpool⟩ := htracked registration.pool key
      (List.mem_cons_of_mem _ ((h.listening _ _).mp hlistener)) hlive'
    rw [InsertionMap.get?_set_self] at hget'
    obtain rfl := Option.some.inj hget'
    -- the other pool has a listener already
    have hnew := h.waiting pool (by simp [hpending])
    have hsame : pool = registration.pool := hpool
    rw [hsame, hlistener] at hnew
    exact nomatch hnew
  | _ => exact absurd trivial hnot

/-- **When the pools are tracked.** In every run, the pools that were returned are registered until
they are aborted, and no step removes or aborts another registration than those it is meant for, if
and only if no creation ends to find its key taken. -/
theorem poolsTracked_iff (makeKey : Options → Key) {st : State Key}
    (run : Transition.Run (fun st e st' => State.step makeKey st e = some st') {} st) :
    run.Visits Tracked ∧ run.Takes (KeepsOthers makeKey) ↔ run.Takes EndsAlone := by
  have hexact : run.Visits Tracked ↔ run.Takes EndsAlone :=
    Transition.Run.visits_iff_takes (I := Sound) (fun _ h => h.tracked)
      (fun _ _ _ h halone hstep => (h.step halone hstep).1)
      (fun _ _ _ h hnot hstep => h.not_tracked_of_not_endsAlone hnot hstep) Sound.init run
  refine ⟨fun h => hexact.mp h.1, fun h => ⟨hexact.mpr h, ?_⟩⟩
  have hsound : run.Visits Sound := Transition.Run.visits_of_takes
    (fun _ _ _ h halone hstep => (h.step halone hstep).1) Sound.init run h
  have hboth := (Transition.Run.takes_of_visits (C := fun st _ => Sound st) (fun _ _ h => h)
    hsound).and h
  refine hboth.mono fun st e ⟨hst, halone⟩ st' hstep key registration hget hnot => ?_
  obtain ⟨hsound', hkept⟩ := hst.step halone hstep
  obtain ⟨lastUsed, hget'⟩ := hkept key registration hget hnot
  exact ⟨lastUsed, hget', (hsound'.registered key _ hget').1⟩

/-! ### Two creations for one key -/

/-- The second call begins before the first one has its pool. -/
private def overlapping : List (Event ℕ) :=
  [.getConnection 7 0, .getConnection 7 0, .completed 0 1, .completed 1 2]

/-- The pool of the first call is live, and not registered. -/
theorem not_tracked_overlapping :
    ∃ (st : State ℕ) (run : Transition.Run (fun st e st' => State.step id st e = some st') {} st),
      run.labels = overlapping ∧ ¬ run.Visits Tracked := by
  have hrun : overlapping.foldlM (State.step id) {} = some _ := rfl
  obtain ⟨run, hlabels⟩ := Transition.Run.exists_labels_eq hrun
  refine ⟨_, run, hlabels, fun h => ?_⟩
  obtain ⟨registration, hget, hpool⟩ := h.last 0 7 (by decide) (by decide)
  obtain rfl : (⟨1, 2⟩ : Registration) = registration := Option.some.inj hget
  exact absurd hpool (by decide)

end ConnectionPoolManager

end N8n
