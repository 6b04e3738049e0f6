import Mathlib.Logic.Function.Basic
import N8n.Foundations.Linearizability
import N8n.Foundations.Transition

/-!
# Hashes in the in-memory cache

On the memory backend of `CacheService` a hash is a JavaScript object. The store gives out the
object that it has under a key, and stores a copy of the object that it is given. `setHash` and
`deleteFromHash` get the object, change it in place and set it, with `await`s between the first and
the second. On the Redis backend each operation is one command.

The cache is initialised, and has no time to live and no limit of its size. An object is only
reached through the key under which it was stored, so that objects are numbered for each key. Of a
hash the model has its fields: a hash without fields is as good as none, as it is for `HGETALL`.
-/

namespace N8n

namespace CacheService

open Linearizability

abbrev CallId := ℕ

/-- The fields of an object and their values. -/
abbrev Hash (V : Type) := String → Option V

namespace Hash

variable {V : Type}

def empty : Hash V := fun _ => none

/-- `Object.assign(target, source)`. -/
def assign (target : Hash V) (source : List (String × V)) : Hash V :=
  source.foldl (fun hash x => Function.update hash x.1 (some x.2)) target

/-- `delete hash[field]`. -/
def erase (hash : Hash V) (field : String) : Hash V := Function.update hash field none

end Hash

/-- A call of the service, with its arguments. -/
inductive Op (V : Type) where
  | setHash (key : String) (hash : List (String × V))
  | deleteFromHash (cacheKey hashKey : String)
  | getHash (key : String)
  | getHashValue (cacheKey hashKey : String)
  | delete (key : String)

namespace Op

variable {V : Type}

/-- The key of the cache that it is about. -/
def key : Op V → String
  | setHash key _ | deleteFromHash key _ | getHash key | getHashValue key _ | delete key => key

/-- It returns at once, as an argument is empty. -/
def skips : Op V → Bool
  | setHash key _ | delete key => key == ""
  | deleteFromHash cacheKey hashKey => cacheKey == "" || hashKey == ""
  | getHash _ | getHashValue _ _ => false

end Op

inductive Result (V : Type) where
  | done
  | hash (fields : Hash V)
  | value (value : Option V)

/-- The service with `HSET`, `HDEL`, `HGETALL`, `HGET` and `DEL`. -/
def redis (V : Type) : Object (String → Hash V) (Op V) (Result V) where
  init _ := Hash.empty
  step s op :=
    if op.skips then (s, .done)
    else match op with
      | .setHash key hash => (Function.update s key ((s key).assign hash), .done)
      | .deleteFromHash cacheKey hashKey =>
        (Function.update s cacheKey ((s cacheKey).erase hashKey), .done)
      | .getHash key => (s, .hash (s key))
      | .getHashValue cacheKey hashKey => (s, .value (s cacheKey hashKey))
      | .delete key => (Function.update s key Hash.empty, .done)

/-! ### The memory backend -/

/-- Where a call is. -/
inductive Phase where
  /-- The store has not been asked. -/
  | called
  /-- The store has given out this object, or `undefined`. -/
  | got (object : Option ℕ)
  | finished
  | returned
  deriving DecidableEq

end CacheService

open CacheService Linearizability in
structure CacheService (V : Type) where
  /-- The object under a key. -/
  store : String → Option ℕ
  /-- The objects that were stored under a key. -/
  objects : String → ℕ → Hash V
  /-- The number of the next object. -/
  next : ℕ
  calls : CallId → Option (Op V × Phase)
  history : List (Event CallId (Op V) (Result V))

namespace CacheService

open Linearizability

variable {V : Type}

/-- An empty cache, and no calls. -/
def init : CacheService V where
  store _ := none
  objects _ _ := Hash.empty
  next := 0
  calls _ := none
  history := []

variable (st : CacheService V)

/-- `this.get(key)`, for the object that the store has. -/
def get (key : String) : Option ℕ := if key = "" then none else st.store key

/-- The fields of what the store has given out. -/
def contents (key : String) : Option ℕ → Hash V
  | none => Hash.empty
  | some object => st.objects key object

/-- What the store has under a key. -/
def stored (key : String) : Hash V := st.contents key (st.store key)

def setPhase (call : CallId) (op : Op V) (phase : Phase) : CacheService V :=
  { st with calls := Function.update st.calls call (some (op, phase)) }

/-- The object that the store has given out gets the fields `hash`, and a copy of it is stored. -/
def set (key : String) (object : Option ℕ) (hash : Hash V) : CacheService V :=
  { st with
    store := Function.update st.store key (some st.next)
    objects := Function.update st.objects key fun o =>
      if object = some o ∨ o = st.next then hash else st.objects key o
    next := st.next + 1 }

/-- `this.cache.store.del(key)`. -/
def del (key : String) : CacheService V := { st with store := Function.update st.store key none }

/-- A call returns. -/
def ret (call : CallId) (op : Op V) (result : Result V) : CacheService V :=
  { st.setPhase call op .returned with history := st.history ++ [.ret call result] }

/-! ### Steps -/

inductive Step (V : Type) where
  | calls (call : CallId) (op : Op V)
  /-- A call accesses the store first. -/
  | acts (call : CallId)
  /-- `setHash` and `deleteFromHash` go on with the object that they got. -/
  | continues (call : CallId)
  | returns (call : CallId)

/-- The first access to the store. -/
def act (call : CallId) (op : Op V) : CacheService V :=
  if op.skips then st.setPhase call op .finished
  else match op with
    | .setHash key _ | .deleteFromHash key _ | .getHash key =>
      st.setPhase call op (.got (st.get key))
    | .getHashValue key _ => st.setPhase call op (.got (st.store key))
    | .delete key => (st.del key).setPhase call op .finished

/-- From what the store has given out to the `set`. -/
def update (call : CallId) (op : Op V) (object : Option ℕ) : Option (CacheService V) :=
  match op, object with
  | .setHash key hash, object =>
    some ((st.set key object ((st.contents key object).assign hash)).setPhase call op .finished)
  | .deleteFromHash _ _, none => some (st.setPhase call op .finished)
  | .deleteFromHash cacheKey hashKey, some object =>
    some ((st.set cacheKey object ((st.objects cacheKey object).erase hashKey)).setPhase call op
      .finished)
  | _, _ => none

variable (inherited : String → Option V)

/-- `hashObject?.[hashKey]`: the field, or what objects inherit under its name. -/
def valueOf (key hashKey : String) (object : Option ℕ) : Option V :=
  st.contents key object hashKey <|> object.bind fun _ => inherited hashKey

/-- What a call returns. -/
def resultOf : Op V → Phase → Option (Result V)
  | _, .finished => some .done
  | .getHash key, .got object => some (.hash (st.contents key object))
  | .getHashValue key hashKey, .got object =>
    some (.value (st.valueOf inherited key hashKey object))
  | _, _ => none

def step? : Step V → Option (CacheService V)
  | .calls call op =>
    if (st.calls call).isNone then
      some { st.setPhase call op .called with history := st.history ++ [.call call op] }
    else none
  | .acts call =>
    match st.calls call with
    | some (op, .called) => some (st.act call op)
    | _ => none
  | .continues call =>
    match st.calls call with
    | some (op, .got object) => st.update call op object
    | _ => none
  | .returns call => do
    let (op, phase) ← st.calls call
    let result ← st.resultOf inherited op phase
    some (st.ret call op result)

/-! ### The property and the condition -/

/-- An operation that takes a field away from a hash. -/
def Op.Removes (key hashKey : String) (op : Op V) : Prop :=
  op = .deleteFromHash key hashKey ∨ op = .delete key

/-- The calls have the results that the commands of Redis have in some order of the calls, which is
also the one that the cache is left with. A field that a completed `setHash` wrote, and that nobody
has removed since, is there. -/
structure ActsLikeRedis : Prop where
  linearizable : ∃ order, Linearization (redis V) st.history order ∧
    (redis V).run order = st.stored
  kept : ∀ call key hash field, key ≠ "" → field ∈ hash.map Prod.fst →
    .call call (.setHash key hash) ∈ st.history → .ret call .done ∈ st.history →
    (∀ call' op, op.Removes key field → .call call' op ∈ st.history →
      Precedes st.history call' call) → (st.stored key field).isSome

/-- `setHash` and `deleteFromHash` go on with an object that still has what the store has under the
key, but for the fields that they write themselves; and `getHashValue` returns no member that
objects inherit. -/
def Timely : Step V → Prop
  | .calls _ _ | .acts _ => True
  | .continues call =>
    match st.calls call with
    | some (.setHash key hash, .got object) =>
      ∀ field, field ∉ hash.map Prod.fst → st.contents key object field = st.stored key field
    | some (.deleteFromHash cacheKey hashKey, .got (some object)) =>
      ∀ field, field ≠ hashKey → st.objects cacheKey object field = st.stored cacheKey field
    | _ => True
  | .returns call =>
    match st.calls call with
    | some (.getHashValue cacheKey hashKey, .got (some object)) =>
      inherited hashKey = none ∨ (st.objects cacheKey object hashKey).isSome
    | _ => True

/-! ### Objects -/

variable {st} {inherited}

theorem Hash.assign_nil (target : Hash V) : target.assign [] = target := rfl

theorem Hash.assign_cons (target : Hash V) (x : String × V) (source : List (String × V)) :
    target.assign (x :: source) = Hash.assign (Function.update target x.1 (some x.2)) source := rfl

theorem Hash.assign_of_notMem {target : Hash V} {source : List (String × V)} {field : String}
    (h : field ∉ source.map Prod.fst) : target.assign source field = target field := by
  induction source generalizing target with
  | nil => rfl
  | cons x source ih =>
    simp only [List.map_cons, List.mem_cons, not_or] at h
    rw [assign_cons, ih h.2, Function.update_of_ne h.1]

/-- What is assigned does not depend on what was there before. -/
theorem Hash.assign_of_mem (target target' : Hash V) {source : List (String × V)} {field : String}
    (h : field ∈ source.map Prod.fst) :
    target.assign source field = target'.assign source field := by
  induction source generalizing target target' with
  | nil => cases h
  | cons x source ih =>
    rw [assign_cons, assign_cons]
    by_cases hmem : field ∈ source.map Prod.fst
    · exact ih _ _ hmem
    · have hfield : field = x.1 := by
        rw [List.map_cons, List.mem_cons] at h
        exact h.resolve_right hmem
      rw [assign_of_notMem hmem, assign_of_notMem hmem, hfield, Function.update_self,
        Function.update_self]

theorem Hash.isSome_assign {target : Hash V} {source : List (String × V)} {field : String}
    (h : field ∈ source.map Prod.fst ∨ (target field).isSome) :
    (target.assign source field).isSome := by
  induction source generalizing target with
  | nil => simpa [assign_nil] using h
  | cons x source ih =>
    rw [assign_cons]
    refine ih ?_
    by_cases hx : field = x.1
    · exact .inr (by simp [hx])
    · rw [List.map_cons, List.mem_cons, or_iff_right hx] at h
      rwa [Function.update_of_ne hx]

theorem Hash.assign_congr {target target' : Hash V} {source : List (String × V)}
    (h : ∀ field, field ∉ source.map Prod.fst → target field = target' field) :
    target.assign source = target'.assign source := by
  funext field
  by_cases hmem : field ∈ source.map Prod.fst
  · exact assign_of_mem target target' hmem
  · rw [assign_of_notMem hmem, assign_of_notMem hmem]
    exact h field hmem

theorem Hash.erase_congr {hash hash' : Hash V} {hashKey : String}
    (h : ∀ field, field ≠ hashKey → hash field = hash' field) :
    hash.erase hashKey = hash'.erase hashKey := by
  funext field
  by_cases hfield : field = hashKey
  · rw [erase, erase, hfield, Function.update_self, Function.update_self]
  · rw [erase, erase, Function.update_of_ne hfield, Function.update_of_ne hfield]
    exact h field hfield

@[simp] theorem Hash.erase_empty (hashKey : String) : (empty : Hash V).erase hashKey = empty :=
  Function.update_eq_self _ _

/-- `set` changes what was given out only where it is the object that is written. -/
theorem contents_set (key key' : String) (object object' : Option ℕ) (hash : Hash V)
    (hnext : ∀ o ∈ object', o < st.next) :
    (st.set key object hash).contents key' object' = st.contents key' object' ∨
      key' = key ∧ (st.set key object hash).contents key' object' = hash := by
  cases object' with
  | none => exact .inl rfl
  | some o =>
    by_cases hkey : key' = key
    · subst hkey
      have ho : o ≠ st.next := (hnext o rfl).ne
      by_cases hobject : object = some o
      · exact .inr ⟨rfl, by simp [contents, set, hobject]⟩
      · exact .inl (by simp [contents, set, hobject, ho])
    · exact .inl (by simp [contents, set, hkey])

theorem stored_set {key : String} {object : Option ℕ} {hash : Hash V}
    (hnext : ∀ key o, st.store key = some o → o < st.next) :
    (st.set key object hash).stored = Function.update st.stored key hash := by
  funext key'
  by_cases hkey : key' = key
  · subst hkey
    simp [stored, contents, set]
  · rw [Function.update_of_ne hkey]
    have hstore : (st.set key object hash).store key' = st.store key' :=
      Function.update_of_ne hkey _ _
    rw [stored, hstore]
    obtain h | ⟨h, -⟩ := contents_set key key' object (st.store key') hash (hnext key')
    · exact h
    · exact absurd h hkey

theorem stored_del (key : String) :
    (st.del key).stored = Function.update st.stored key Hash.empty := by
  funext key'
  by_cases hkey : key' = key
  · subst hkey
    simp [stored, contents, del]
  · rw [Function.update_of_ne hkey]
    simp [stored, contents, del, hkey]

/-! ### The invariant -/

/-- What is known of a call in an order of the calls. -/
def Tracks (st : CacheService V) (order : List (CallId × Op V)) (call : CallId) (op : Op V) :
    Phase → Prop
  | .called => call ∉ order.map Prod.fst
  | .got object =>
    call ∉ order.map Prod.fst ∧ op.skips = false ∧ (∀ o ∈ object, o < st.next) ∧
      -- the store had these fields at a moment of the call
      Passes (redis V) st.history order call fun s => s op.key = st.contents op.key object
  | .finished => Yields (redis V) order call op .done
  | .returned => True

/-- The calls are linearized by `order`. -/
structure Sound (order : List (CallId × Op V)) (st : CacheService V) : Prop where
  linear : Linearization (redis V) st.history order
  run : (redis V).run order = st.stored
  next : ∀ key o, st.store key = some o → o < st.next
  noEmptyKey : st.store "" = none
  called : ∀ call op, .call call op ∈ st.history ↔ ∃ phase, st.calls call = some (op, phase)
  tracks : ∀ call op phase, st.calls call = some (op, phase) → Tracks st order call op phase

theorem sound_init : Sound [] (init : CacheService V) where
  linear := .nil
  run := rfl
  next := nofun
  noEmptyKey := rfl
  called := by simp [init]
  tracks := nofun

namespace Sound

variable {order before after : List (CallId × Op V)} {c : CallId} {op : Op V}
  {phase phase' : Phase}

theorem get_eq (h : Sound order st) (key : String) : st.get key = st.store key := by
  rw [get]
  split_ifs with hkey
  · rw [hkey, h.noEmptyKey]
  · rfl

/-- A call is made. -/
theorem call (h : Sound order st) (hnew : st.calls c = none) :
    Sound order
      { st.setPhase c op .called with history := st.history ++ [.call c op] } where
  linear := by
    refine h.linear.call fun op' hop' => ?_
    obtain ⟨phase, hphase⟩ := (h.called c op').mp hop'
    rw [hnew] at hphase
    cases hphase
  run := h.run
  next := h.next
  noEmptyKey := h.noEmptyKey
  called := by
    intro c' op'
    by_cases hcall : c' = c
    · subst hcall
      have hno : .call c' op' ∉ st.history := by
        rw [h.called]
        simp [hnew]
      simp [setPhase, hno, eq_comm]
    · simp [setPhase, hcall, h.called]
  tracks := by
    intro c' op' phase' hphase'
    by_cases hcall : c' = c
    · subst hcall
      obtain ⟨rfl, rfl⟩ : op = op' ∧ .called = phase' := by simpa [setPhase] using hphase'
      intro hmem
      obtain ⟨x, hx, rfl⟩ := List.mem_map.mp hmem
      obtain ⟨phase, hphase⟩ := (h.called x.1 x.2).mp (h.linear.called x hx)
      rw [hnew] at hphase
      cases hphase
    · have hold : st.calls c' = some (op', phase') := by simpa [setPhase, hcall] using hphase'
      have htracks := h.tracks c' op' phase' hold
      cases phase' with
      | got object =>
        obtain ⟨hnot, hskips, hnext, hpasses⟩ := htracks
        refine ⟨hnot, hskips, hnext, hpasses.concat_history fun op'' he => ?_⟩
        injection he with he
        exact hcall he.symm
      | called | finished | returned => exact htracks

/-- A call goes on, with what is known of it then. -/
theorem setPhase (h : Sound order st) (hcall : st.calls c = some (op, phase)) (phase' : Phase)
    (htracks : Tracks st order c op phase') : Sound order (st.setPhase c op phase') where
  linear := h.linear
  run := h.run
  next := h.next
  noEmptyKey := h.noEmptyKey
  called := by
    intro c' op'
    rw [show (st.setPhase c op phase').history = st.history from rfl, h.called]
    by_cases hne : c' = c
    · subst hne
      simp [CacheService.setPhase, hcall]
    · simp [CacheService.setPhase, hne]
  tracks := by
    intro c' op' phase'' hphase
    by_cases hne : c' = c
    · subst hne
      obtain ⟨rfl, rfl⟩ : op = op' ∧ phase' = phase'' := by
        simpa [CacheService.setPhase] using hphase
      exact htracks
    · exact h.tracks c' op' phase'' (by simpa [CacheService.setPhase, hne] using hphase)

/-- A call that is over returns. -/
theorem ret (h : Sound order st) {res : Result V} (hcall : st.calls c = some (op, phase))
    (hyields : Yields (redis V) order c op res) : Sound order (st.ret c op res) := by
  have h' := h.setPhase hcall .returned trivial
  refine ⟨h'.linear.ret hyields, h'.run, h'.next, h'.noEmptyKey, fun c' op' => ?_, ?_⟩
  · rw [show (st.ret c op res).calls = (st.setPhase c op .returned).calls from rfl,
      ← h'.called]
    simp [CacheService.ret, CacheService.setPhase]
  · intro c' op' phase'' hphase
    have htracks := h'.tracks c' op' phase'' hphase
    cases phase'' with
    | got object =>
      obtain ⟨hnot, hskips, hnext, hpasses⟩ := htracks
      exact ⟨hnot, hskips, hnext, hpasses.concat_history fun op'' he => by cases he⟩
    | called | finished | returned => exact htracks

/-- **Linearization point.** A call takes effect, and what other calls were given stays as it was
or is what the store has now. -/
theorem insert (h : Sound (before ++ after) st) (hcall : st.calls c = some (op, phase))
    (hnew : c ∉ (before ++ after).map Prod.fst)
    (hreal : ∀ d, Precedes st.history d c → d ∈ before.map Prod.fst)
    (hstate : after ≠ [] → ((redis V).step ((redis V).run before) op).1 = (redis V).run before)
    {st' : CacheService V} (hhistory : st'.history = st.history) (hcalls : st'.calls = st.calls)
    (hrun : (redis V).run (before ++ (c, op) :: after) = st'.stored)
    (hnext : ∀ key o, st'.store key = some o → o < st'.next) (hle : st.next ≤ st'.next)
    (hempty : st'.store "" = none)
    (hgiven : ∀ key object, (∀ o ∈ object, o < st.next) →
      st'.contents key object = st.contents key object ∨
        st'.contents key object = (redis V).run (before ++ (c, op) :: after) key)
    (htracks : Tracks st' (before ++ (c, op) :: after) c op phase') :
    Sound (before ++ (c, op) :: after) (st'.setPhase c op phase') where
  linear := by
    have hlinear := h.linear.insert ((h.called c op).mpr ⟨phase, hcall⟩) hnew hreal hstate
    rwa [← hhistory] at hlinear
  run := hrun
  next := hnext
  noEmptyKey := hempty
  called := by
    intro c' op'
    rw [show (st'.setPhase c op phase').history = st.history from hhistory, h.called, ← hcalls]
    by_cases hne : c' = c
    · subst hne
      simp [CacheService.setPhase, hcalls, hcall]
    · simp [CacheService.setPhase, hne]
  tracks := by
    intro c' op' phase'' hphase
    by_cases hne : c' = c
    · subst hne
      obtain ⟨rfl, rfl⟩ : op = op' ∧ phase' = phase'' := by
        simpa [CacheService.setPhase] using hphase
      exact htracks
    · have hold := h.tracks c' op' phase''
        (by simpa [CacheService.setPhase, hne, hcalls] using hphase)
      have hnotMem : c' ∉ (before ++ after).map Prod.fst →
          c' ∉ (before ++ (c, op) :: after).map Prod.fst := by
        simp only [List.map_append, List.map_cons, List.mem_append, List.mem_cons]
        tauto
      cases phase'' with
      | called => exact hnotMem hold
      | got object =>
        obtain ⟨hnot, hskips, hlt, hpasses⟩ := hold
        refine ⟨hnotMem hnot, hskips, fun o ho => (hlt o ho).trans_le hle, ?_⟩
        rw [show (st'.setPhase c op phase').history = st.history from hhistory]
        obtain hgiven | hgiven := hgiven op'.key object hlt
        · exact (hpasses.insert hstate).mono fun s hs => hs.trans hgiven.symm
        · have hlinear := h.linear.insert ((h.called c op).mpr ⟨phase, hcall⟩) hnew hreal hstate
          exact .last hlinear hgiven.symm
      | finished => exact hold.insert hstate
      | returned => trivial

/-- A call takes effect now. -/
theorem takesEffect (h : Sound order st) (hcall : st.calls c = some (op, phase))
    (hnew : c ∉ order.map Prod.fst) {st' : CacheService V} (hhistory : st'.history = st.history)
    (hcalls : st'.calls = st.calls) (hstep : (redis V).step st.stored op = (st'.stored, .done))
    (hnext : ∀ key o, st'.store key = some o → o < st'.next) (hle : st.next ≤ st'.next)
    (hempty : st'.store "" = none)
    (hgiven : ∀ key object, (∀ o ∈ object, o < st.next) →
      st'.contents key object = st.contents key object ∨ st'.contents key object = st'.stored key) :
    Sound (order ++ [(c, op)]) (st'.setPhase c op .finished) := by
  have hrun : (redis V).run (order ++ [(c, op)]) = st'.stored := by
    rw [Object.run_concat, h.run, hstep]
  have h₀ := h
  rw [← List.append_nil order] at h hnew
  refine h.insert hcall hnew (fun d hd => h₀.linear.mem_of_precedes hd)
    (fun hne => absurd rfl hne) hhistory hcalls hrun hnext hle hempty ?_ ?_
  · intro key object hobject
    rw [hrun]
    exact hgiven key object hobject
  · exact ⟨order, [], rfl, by rw [h₀.run, hstep]⟩

/-- A call that was given an object, and leaves the cache as it is, takes effect when the store had
that object. -/
theorem reads (h : Sound order st) {object : Option ℕ} {res : Result V}
    (hcall : st.calls c = some (op, .got object))
    (hstep : ∀ s : String → Hash V, s op.key = st.contents op.key object →
      (redis V).step s op = (s, res)) (phase' : Phase)
    (htracks : ∀ order', Yields (redis V) order' c op res → Tracks st order' c op phase') :
    ∃ order', Sound order' (st.setPhase c op phase') ∧ Yields (redis V) order' c op res := by
  obtain ⟨hnew, -, -, before, after, rfl, hreal, hkey⟩ := h.tracks c op _ hcall
  have hstep := hstep _ hkey
  have hyields : Yields (redis V) (before ++ (c, op) :: after) c op res :=
    ⟨before, after, rfl, by rw [hstep]⟩
  refine ⟨_, ?_, hyields⟩
  refine h.insert hcall hnew hreal (fun _ => by rw [hstep]) rfl rfl ?_ h.next le_rfl h.noEmptyKey
    (fun key object _ => .inl rfl) (htracks _ hyields)
  rw [Object.run_insert (by rw [hstep]), h.run]

/-- A call that only reads returns what it was given. -/
theorem retRead (h : Sound order st) {object : Option ℕ} {res : Result V}
    (hcall : st.calls c = some (op, .got object))
    (hstep : ∀ s : String → Hash V, s op.key = st.contents op.key object →
      (redis V).step s op = (s, res)) :
    ∃ order', Sound order' (st.ret c op res) := by
  obtain ⟨order', h', hyields⟩ := h.reads hcall hstep .returned fun _ _ => trivial
  have hcall' : (st.setPhase c op .returned).calls c = some (op, .returned) := by
    simp [CacheService.setPhase]
  have hret := h'.ret hcall' hyields
  refine ⟨order', ?_⟩
  simpa [CacheService.ret, CacheService.setPhase] using hret

/-- An object that was given out is changed and stored, as the command changes what the store
has. -/
theorem set (h : Sound order st) {object : Option ℕ} {hash : Hash V}
    (hcall : st.calls c = some (op, .got object)) (hkey : op.key ≠ "")
    (hstep : (redis V).step st.stored op = (Function.update st.stored op.key hash, .done)) :
    Sound (order ++ [(c, op)]) ((st.set op.key object hash).setPhase c op .finished) := by
  obtain ⟨hnew, -, -, -⟩ := h.tracks c op _ hcall
  refine h.takesEffect hcall hnew rfl rfl ?_ ?_ (Nat.le_succ _) ?_ ?_
  · rw [stored_set h.next]
    exact hstep
  · intro key o ho
    by_cases hkey' : key = op.key
    · subst hkey'
      have : st.next = o := by simpa [CacheService.set] using ho
      exact this ▸ Nat.lt_succ_self _
    · have hstore : st.store key = some o := by simpa [CacheService.set, hkey'] using ho
      exact (h.next key o hstore).trans (Nat.lt_succ_self _)
  · rw [← h.noEmptyKey]
    exact Function.update_of_ne hkey.symm _ _
  · intro key object' hobject'
    obtain hsame | ⟨rfl, hhash⟩ := contents_set op.key key object object' hash hobject'
    · exact .inl hsame
    · right
      rw [hhash, stored_set h.next, Function.update_self]

/-! ### One step -/

theorem act (h : Sound order st) (hcall : st.calls c = some (op, .called)) :
    ∃ order', Sound order' (st.act c op) := by
  have hnew : c ∉ order.map Prod.fst := h.tracks c op _ hcall
  have hgot : op.skips = false → ∀ object, object = st.store op.key →
      Sound order (st.setPhase c op (.got object)) := by
    intro hskips object hobject
    subst hobject
    refine h.setPhase hcall _ ⟨hnew, hskips, fun o ho => h.next _ o ho, .last h.linear ?_⟩
    rw [h.run]
    rfl
  unfold CacheService.act
  split_ifs with hskips
  · refine ⟨_, h.takesEffect hcall hnew rfl rfl ?_ h.next le_rfl h.noEmptyKey
      fun key object _ => .inl rfl⟩
    simp [redis, hskips]
  · rw [Bool.not_eq_true] at hskips
    cases op with
    | setHash | deleteFromHash | getHash => exact ⟨order, hgot hskips _ (h.get_eq _)⟩
    | getHashValue => exact ⟨order, hgot hskips _ rfl⟩
    | delete key =>
      refine ⟨_, h.takesEffect hcall hnew rfl rfl ?_ ?_ le_rfl ?_
        fun key object _ => .inl rfl⟩
      · rw [stored_del]
        simp [redis, hskips]
      · intro key' o ho
        refine h.next key' o ?_
        by_cases hkey : key' = key
        · subst hkey
          simp [CacheService.del] at ho
        · simpa [CacheService.del, hkey] using ho
      · by_cases hkey : "" = key
        · simp [CacheService.del, hkey]
        · rw [← h.noEmptyKey]
          exact Function.update_of_ne hkey _ _

theorem update (h : Sound order st) {object : Option ℕ} {st' : CacheService V}
    (hcall : st.calls c = some (op, .got object)) (htimely : st.Timely inherited (.continues c))
    (hstep : st.update c op object = some st') : ∃ order', Sound order' st' := by
  obtain ⟨-, hskips, -, -⟩ := h.tracks c op _ hcall
  simp only [Timely, hcall] at htimely
  cases op with
  | setHash key hash =>
    cases hstep
    have hkey : key ≠ "" := by simpa [Op.skips] using hskips
    refine ⟨_, h.set hcall hkey ?_⟩
    simp only [redis, hskips, Bool.false_eq_true, if_false]
    rw [Hash.assign_congr htimely]
    rfl
  | deleteFromHash cacheKey hashKey =>
    cases object with
    | none =>
      cases hstep
      have hread : ∀ s : String → Hash V, s cacheKey = Hash.empty →
          (redis V).step s (.deleteFromHash cacheKey hashKey) = (s, .done) := by
        intro s hs
        simp only [redis, hskips, Bool.false_eq_true, if_false]
        rw [hs, Hash.erase_empty, ← hs, Function.update_eq_self]
      obtain ⟨order', h', -⟩ := h.reads hcall hread .finished fun _ hyields => hyields
      exact ⟨order', h'⟩
    | some object =>
      cases hstep
      have hkey : cacheKey ≠ "" := by
        simp only [Op.skips, Bool.or_eq_false_iff, beq_eq_false_iff_ne] at hskips
        exact hskips.1
      refine ⟨_, h.set hcall hkey ?_⟩
      simp only [redis, hskips, Bool.false_eq_true, if_false]
      rw [Hash.erase_congr htimely]
      rfl
  | getHash | getHashValue | delete => cases hstep

theorem resultOf (h : Sound order st) {res : Result V} (hcall : st.calls c = some (op, phase))
    (htimely : st.Timely inherited (.returns c))
    (hres : st.resultOf inherited op phase = some res) :
    ∃ order', Sound order' (st.ret c op res) := by
  cases phase with
  | called | returned => cases op <;> cases hres
  | finished =>
    have hyields : Yields (redis V) order c op .done := h.tracks c op _ hcall
    obtain rfl : .done = res := by cases op <;> exact Option.some.inj hres
    exact ⟨order, h.ret hcall hyields⟩
  | got object =>
    simp only [Timely, hcall] at htimely
    cases op with
    | setHash | deleteFromHash | delete => cases hres
    | getHash key =>
      cases hres
      refine h.retRead hcall fun s hs => ?_
      simp only [redis, Op.skips, Bool.false_eq_true, if_false]
      have hs : s key = st.contents key object := hs
      rw [hs]
    | getHashValue cacheKey hashKey =>
      cases hres
      refine h.retRead hcall fun s hs => ?_
      simp only [redis, Op.skips, Bool.false_eq_true, if_false]
      have hs : s cacheKey = st.contents cacheKey object := hs
      rw [hs, valueOf]
      cases object with
      | none => simp [contents, Hash.empty]
      | some object =>
        obtain hinherited | hsome := htimely
        · simp [contents, hinherited]
        · obtain ⟨v, hv⟩ := Option.isSome_iff_exists.mp hsome
          simp [contents, hv]

/-- One step keeps the invariant when it is timely. -/
theorem step (h : Sound order st) {e : Step V} {st' : CacheService V}
    (htimely : st.Timely inherited e) (hstep : st.step? inherited e = some st') :
    ∃ order', Sound order' st' := by
  cases e with
  | calls c op =>
    simp only [step?, Option.ite_none_right_eq_some, Option.isNone_iff_eq_none] at hstep
    obtain ⟨hnone, hst⟩ := hstep
    cases hst
    exact ⟨order, h.call hnone⟩
  | acts c =>
    simp only [step?] at hstep
    split at hstep
    · rename_i op hcall
      cases hstep
      exact h.act hcall
    · cases hstep
  | continues c =>
    simp only [step?] at hstep
    split at hstep
    · rename_i op object hcall
      exact h.update hcall htimely hstep
    · cases hstep
  | returns c =>
    simp only [step?, Option.bind_eq_bind, Option.bind_eq_some_iff] at hstep
    obtain ⟨⟨op, phase⟩, hcall, res, hres, hst⟩ := hstep
    cases hst
    exact h.resultOf hcall htimely hres

end Sound

/-! ### Runs -/

theorem Op.isSome_step {key hashKey : String} {op : Op V} (hkey : ¬ op.Removes key hashKey)
    {s : String → Hash V} (hs : (s key hashKey).isSome) :
    (((redis V).step s op).1 key hashKey).isSome := by
  by_cases hskips : op.skips
  · simpa [redis, hskips] using hs
  rw [Bool.not_eq_true] at hskips
  simp only [Op.Removes, not_or] at hkey
  simp only [redis, hskips, Bool.false_eq_true, if_false]
  cases op with
  | setHash key' hash =>
    by_cases hne : key = key'
    · subst hne
      simpa using Hash.isSome_assign (.inr hs)
    · simpa [Function.update_of_ne hne] using hs
  | deleteFromHash key' hashKey' =>
    by_cases hne : key = key'
    · subst hne
      have hfield : hashKey ≠ hashKey' := fun heq => hkey.1 (heq ▸ rfl)
      simpa [Hash.erase, Function.update_of_ne hfield] using hs
    · simpa [Function.update_of_ne hne] using hs
  | delete key' =>
    have hne : key ≠ key' := fun heq => hkey.2 (heq ▸ rfl)
    simpa [Function.update_of_ne hne] using hs
  | getHash | getHashValue => exact hs

theorem Sound.actsLikeRedis {order : List (CallId × Op V)} (h : Sound order st) :
    st.ActsLikeRedis where
  linearizable := ⟨order, h.linear, h.run⟩
  kept := by
    intro call key hash field hkey hfield hcall hret hremoved
    have hop : ∀ op', .call call op' ∈ st.history → op' = .setHash key hash := by
      intro op' hop'
      obtain ⟨phase, hphase⟩ := (h.called _ _).mp hcall
      obtain ⟨phase', hphase'⟩ := (h.called _ _).mp hop'
      rw [hphase] at hphase'
      injection hphase' with hphase'
      exact (congrArg Prod.fst hphase').symm
    rw [← h.run]
    refine h.linear.holds (P := fun s => (s key field).isSome) hret hop ?_ ?_
    · intro s
      simpa [redis, Op.skips, hkey] using Hash.isSome_assign (.inl hfield)
    · intro d op' hd hprec s
      exact Op.isSome_step fun hremoves => hprec (hremoved d op' hremoves hd)

/-- The steps of the service, by the names that objects inherit. -/
def Steps (inherited : String → Option V) (st : CacheService V) (e : Step V)
    (st' : CacheService V) : Prop :=
  st.step? inherited e = some st'

/-- Two calls of `setHash` get nothing for the same key, and then each stores what it was given. -/
def overlappingSets : List (Step ℕ) :=
  [.calls 1 (.setHash "k" [("a", 10)]), .acts 1, .calls 2 (.setHash "k" [("b", 20)]), .acts 2,
    .continues 1, .returns 1, .continues 2, .returns 2,
    .calls 3 (.getHashValue "k" "a"), .acts 3, .returns 3]

end CacheService

end N8n
