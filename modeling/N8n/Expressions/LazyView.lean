import N8n.Expressions.LazyProxy

/-!
# The lazy view is faithful to the data

A proxy stands for a place in the data, and no two stand for the same place, as each is kept on the
target of the one it was read from. What a target has under a key is what the data have there; but
the target also has keys that were asked for in vain, and it inherits what every object does. Hence
the two kinds of reads that see something else (`Disturbed`), and no others.
-/

namespace N8n

namespace LazyProxy

open InsertionMap

universe u

variable {π : Type u}

/-- The metadata of a proxy suit the value that it stands for. Those of an object may be missing, or
be without the keys. -/
inductive Describes : WorkflowData π → Option ProxyMeta → Prop
  | missing (fields : List (String × WorkflowData π)) : Describes (.object fields) none
  | withoutKeys (fields : List (String × WorkflowData π)) :
      Describes (.object fields) (some (.object none))
  | object (fields : List (String × WorkflowData π)) :
      Describes (.object fields) (some (.object (some (fields.map Prod.fst))))
  | array (items : List (WorkflowData π)) : Describes (.array items) (some (.array items.length))

/-- A read that sees through the proxies what the data do not have: the key of a field that every
object inherits, or whether an object has a key after it was read there in vain. -/
def Disturbed (s : DataState π) : Read → Prop
  | .get object key => ∃ path fields, s.objects[object]? = some (path, .object fields) ∧
      key ∈ fields.map Prod.fst ∧ key ∈ inheritedKeys
  | .has object key => ∃ path fields, s.objects[object]? = some (path, .object fields) ∧
      (path, key) ∈ s.missed
  | _ => False

/-! ### Members -/

theorem isInArrayBounds_eq_some_iff {length idx : ℕ} {prop : String} :
    isInArrayBounds length prop = some idx ↔ idx < length ∧ toString idx = prop := by
  unfold isInArrayBounds
  constructor
  · intro h
    have hprop := List.find?_some h
    exact ⟨List.mem_range.mp (List.mem_of_find?_eq_some h), of_decide_eq_true hprop⟩
  · intro ⟨hlt, hprop⟩
    subst hprop
    have hsome : ((List.range length).find? fun i => toString i = toString idx).isSome :=
      List.find?_isSome.mpr ⟨idx, List.mem_range.mpr hlt, decide_eq_true rfl⟩
    obtain ⟨i, hi⟩ := Option.isSome_iff_exists.mp hsome
    have hfound := List.find?_some hi
    have heq : toString i = toString idx := of_decide_eq_true hfound
    rwa [Decimal.toString_injective heq] at hi

/-- No number is a key that arrays have anyway. -/
theorem toString_notMem (n : ℕ) : toString n ∉ "length" :: arrayKeys := by
  have hkeys : ∀ key ∈ "length" :: arrayKeys, key.toList.any (!·.isDigit) = true := by
    decide
  intro hmem
  obtain ⟨c, hc, hdigit⟩ := List.any_eq_true.mp (hkeys _ hmem)
  rw [Decimal.isDigit_of_mem_toString hc] at hdigit
  cases hdigit

/-- The callbacks see the members of what they get to. -/
def transferMember : Member π → Transferred π
  | .own value => transfer value
  | .length n => .number n
  | .inherited => .undefined
  | .absent => .undefined

theorem navigate_append {data value : WorkflowData π} {path : List String}
    (h : navigate data path = .own value) (hnull : value ≠ .null) (key : String) :
    navigate data (path ++ [key]) = member value key := by
  induction path generalizing data with
  | nil =>
    cases h
    rw [List.nil_append, navigate]
    cases hm : member value key with
    | own next => cases next <;> rfl
    | length => rfl
    | inherited => rfl
    | absent => rfl
  | cons first path ih =>
    rw [navigate] at h
    rw [List.cons_append, navigate]
    cases hm : member data first with
    | own next =>
      rw [hm] at h
      cases next with
      | null =>
        cases h
        exact absurd rfl hnull
      | primitive => exact ih h
      | array => exact ih h
      | object => exact ih h
    | length =>
      rw [hm] at h
      simp only at h
      split at h <;> cases h
    | inherited =>
      rw [hm] at h
      simp only at h
      split at h <;> cases h
    | absent =>
      rw [hm] at h
      simp only at h
      split at h <;> cases h

theorem getValueAtPath_append {data value : WorkflowData π} {path : List String}
    (h : navigate data path = .own value) (hnull : value ≠ .null) (key : String) :
    getValueAtPath data (path ++ [key]) = transferMember (member value key) := by
  rw [getValueAtPath, navigate_append h hnull]
  cases member value key <;> rfl

theorem getArrayElement_eq {data : WorkflowData π} {items : List (WorkflowData π)}
    {path : List String} (h : navigate data path = .own (.array items)) {index : ℕ}
    (hindex : index < items.length) :
    getArrayElement data path index = transferMember (member (.array items) (toString index)) := by
  have hbounds : isInArrayBounds items.length (toString index) = some index :=
    isInArrayBounds_eq_some_iff.mpr ⟨hindex, rfl⟩
  have hlength : toString index ≠ "length" :=
    fun heq => toString_notMem index (heq ▸ List.mem_cons_self)
  simp only [getArrayElement, h, member, hbounds, if_neg hlength, Option.bind_some,
    List.getElem?_eq_getElem hindex]
  rfl

/-! ### Proxies and places -/

/-- What a value of the isolate stands for. -/
def Represents (paths : List (List String)) (path : List String) (key : String) :
    Member π → GuestValue π → Prop
  | .own .null, w => w = .null
  | .own (.primitive value), w => w = .primitive value
  | .own (.array _), w => ∃ id, w = .proxy id ∧ paths[id]? = some (path ++ [key])
  | .own (.object _), w => ∃ id, w = .proxy id ∧ paths[id]? = some (path ++ [key])
  | .length n, w => w = .number n
  | .inherited, _ => False
  | .absent, w => w = .undefined

/-- A proxy shows the value at its place. -/
structure Valid (data : WorkflowData π) (paths : List (List String)) (proxy : Proxy π)
    (value : WorkflowData π) : Prop where
  at_path : navigate data proxy.basePath = .own value
  describes : Describes value proxy.proxyMeta
  fetched : ∀ keys, proxy.fetchedKeys = some keys → keys = DataState.ownKeys value
  target : ∀ key w, proxy.target.get? key = some w → key ∉ proxy.prototypeKeys ∧
    Represents paths proxy.basePath key (member value key) w
  /-- Only on objects a target has keys that the value does not have. -/
  absent : ∀ key w, proxy.target.get? key = some w → member value key = .absent →
    proxy.arrayLength? = none

/-- The proxies of an isolate, with the keys that were asked for in vain. -/
structure Sound (data : WorkflowData π) (root : List String) (missed : List (List String × String))
    (proxies : List (Proxy π)) : Prop where
  nodup : (proxies.map Proxy.basePath).Nodup
  valid : ∀ (id : ℕ) p, proxies[id]? = some p →
    ∃ value, Valid data (proxies.map Proxy.basePath) p value
  deep : ∀ (id : ℕ) p, proxies[id]? = some p → root.length ≤ p.basePath.length
  parent : ∀ (id : ℕ) p, proxies[id]? = some p → p.basePath = root ∨
    ∃ (id' : ℕ) (p' : Proxy π) (key : String), proxies[id']? = some p' ∧
      p.basePath = p'.basePath ++ [key] ∧ (p'.target.get? key).isSome
  missed_iff : ∀ (id : ℕ) p, proxies[id]? = some p → p.arrayLength? = none →
    ∀ key, (p.basePath, key) ∈ missed ↔ p.target.get? key = some .undefined
  known : ∀ entry ∈ missed, entry.1 ∈ proxies.map Proxy.basePath

theorem Describes.ne_null {value : WorkflowData π} {m : Option ProxyMeta}
    (h : Describes value m) : value ≠ .null := by
  intro heq
  subst heq
  cases h

theorem Represents.mono {paths new : List (List String)} {path : List String} {key : String}
    {m : Member π} {w : GuestValue π} (h : Represents paths path key m w) :
    Represents (paths ++ new) path key m w := by
  have happend : ∀ {id : ℕ} {place : List String}, paths[id]? = some place →
      (paths ++ new)[id]? = some place := by
    intro id place hid
    have hlt : id < paths.length := (List.getElem?_eq_some_iff.mp hid).1
    rwa [List.getElem?_append_left hlt]
  cases m with
  | own value =>
    cases value with
    | null => exact h
    | primitive => exact h
    | array =>
      obtain ⟨id, hw, hid⟩ := h
      exact ⟨id, hw, happend hid⟩
    | object =>
      obtain ⟨id, hw, hid⟩ := h
      exact ⟨id, hw, happend hid⟩
  | length => exact h
  | inherited => exact h
  | absent => exact h

theorem Valid.mono {data value : WorkflowData π} {paths new : List (List String)} {p : Proxy π}
    (h : Valid data paths p value) : Valid data (paths ++ new) p value :=
  ⟨h.at_path, h.describes, h.fetched, fun key w hw =>
    ⟨(h.target key w hw).1, (h.target key w hw).2.mono⟩, h.absent⟩

/-- Two proxies of one place are the same. -/
theorem Sound.eq_of_basePath {data : WorkflowData π} {root : List String}
    {missed : List (List String × String)} {proxies : List (Proxy π)}
    (h : Sound data root missed proxies) {id id' : ℕ} {p p' : Proxy π} (hp : proxies[id]? = some p)
    (hp' : proxies[id']? = some p') (heq : p.basePath = p'.basePath) : id = id' := by
  have hid : (proxies.map Proxy.basePath)[id]? = some p.basePath := by
    rw [List.getElem?_map, hp]
    rfl
  have hid' : (proxies.map Proxy.basePath)[id']? = some p.basePath := by
    rw [List.getElem?_map, hp', heq]
    rfl
  obtain ⟨hlt, -⟩ := List.getElem?_eq_some_iff.mp hid
  exact (List.getElem?_inj hlt h.nodup).mp (hid.trans hid'.symm)

/-- Where a target has nothing under a key, nothing stands for the place behind it. -/
theorem Sound.append_notMem {data : WorkflowData π} {root : List String}
    {missed : List (List String × String)} {proxies : List (Proxy π)}
    (h : Sound data root missed proxies) {id : ℕ} {p : Proxy π} (hp : proxies[id]? = some p)
    {key : String} (hkey : p.target.get? key = none) :
    p.basePath ++ [key] ∉ proxies.map Proxy.basePath := by
  intro hmem
  obtain ⟨q, hq, hpath⟩ := List.mem_map.mp hmem
  obtain ⟨id', hid'⟩ := List.getElem?_of_mem hq
  obtain hroot | ⟨i, p', key', hp', hparent, hsome⟩ := h.parent id' q hid'
  · have hlength := congrArg List.length (hpath.symm.trans hroot)
    rw [List.length_append, List.length_singleton] at hlength
    have hdeep := h.deep id p hp
    omega
  · obtain ⟨hbase, hlast⟩ := List.append_inj' (hpath.symm.trans hparent) rfl
    cases hlast
    obtain rfl := h.eq_of_basePath hp' hp hbase.symm
    rw [hp] at hp'
    cases hp'
    rw [hkey] at hsome
    cases hsome

theorem getElem?_modify_eq {α : Type*} {f : α → α} {l : List α} {i j : ℕ} {b : α}
    (h : (l.modify i f)[j]? = some b) :
    ∃ a, l[j]? = some a ∧ (i = j ∧ b = f a ∨ i ≠ j ∧ b = a) := by
  rw [List.getElem?_modify] at h
  obtain ⟨a, ha, hb⟩ := Option.map_eq_some_iff.mp h
  refine ⟨a, ha, ?_⟩
  split_ifs at hb with hij
  · exact .inl ⟨hij, hb.symm⟩
  · exact .inr ⟨hij, hb.symm⟩

theorem map_basePath_modify {f : Proxy π → Proxy π} (hf : ∀ p, (f p).basePath = p.basePath)
    (proxies : List (Proxy π)) (id : ℕ) :
    (proxies.modify id f).map Proxy.basePath = proxies.map Proxy.basePath := by
  refine List.ext_getElem? fun i => ?_
  rw [List.getElem?_map, List.getElem?_map, List.getElem?_modify]
  cases proxies[i]? with
  | none => rfl
  | some p =>
    refine congrArg some ?_
    dsimp only
    split_ifs
    · exact hf p
    · rfl

/-- The proxies stay sound when one of them learns something, and perhaps one is added. -/
theorem Sound.learn {data : WorkflowData π} {root : List String}
    {missed missed' : List (List String × String)} {proxies new : List (Proxy π)}
    (h : Sound data root missed proxies) {id : ℕ} {p : Proxy π} (hp : proxies[id]? = some p)
    {f : Proxy π → Proxy π} (hpath : ∀ q, (f q).basePath = q.basePath)
    (hlength : ∀ q, (f q).arrayLength? = q.arrayLength?)
    (hgrows : ∀ q key, (q.target.get? key).isSome → ((f q).target.get? key).isSome)
    (hvalid : ∃ value, Valid data ((proxies ++ new).map Proxy.basePath) (f p) value)
    (hmissed : ∀ path key, path ≠ p.basePath → ((path, key) ∈ missed' ↔ (path, key) ∈ missed))
    (hiff : p.arrayLength? = none → ∀ key, (p.basePath, key) ∈ missed' ↔
      (f p).target.get? key = some .undefined)
    (hnew : new = [] ∨ ∃ child key, new = [child] ∧ child.basePath = p.basePath ++ [key] ∧
      p.target.get? key = none ∧ ((f p).target.get? key).isSome ∧ child.target = .empty ∧
      ∃ value, Valid data ((proxies ++ new).map Proxy.basePath) child value) :
    Sound data root missed' ((proxies ++ new).modify id f) := by
  have hpaths := map_basePath_modify hpath (proxies ++ new) id
  have hfresh : ∀ child ∈ new, child.basePath ∉ proxies.map Proxy.basePath := by
    intro child hchild
    obtain rfl | ⟨c, key, rfl, hbase, hnone, -⟩ := hnew
    · cases hchild
    · rw [List.mem_singleton.mp hchild, hbase]
      exact h.append_notMem hp hnone
  have hlt : id < proxies.length := (List.getElem?_eq_some_iff.mp hp).1
  -- a proxy of the result is the one that learned, one of the others, or the new one
  have hcases : ∀ {j : ℕ} {b : Proxy π}, ((proxies ++ new).modify id f)[j]? = some b →
      j = id ∧ b = f p ∨ j ≠ id ∧ proxies[j]? = some b ∨ b ∈ new := by
    intro j b hb
    obtain ⟨a, ha, ⟨rfl, rfl⟩ | ⟨hne, rfl⟩⟩ := getElem?_modify_eq hb
    · rw [List.getElem?_append_left hlt, hp] at ha
      cases ha
      exact .inl ⟨rfl, rfl⟩
    · by_cases hj : j < proxies.length
      · rw [List.getElem?_append_left hj] at ha
        exact .inr (.inl ⟨fun heq => hne heq.symm, ha⟩)
      · rw [List.getElem?_append_right (Nat.le_of_not_lt hj)] at ha
        exact .inr (.inr (List.mem_of_getElem? ha))
  have hothers : ∀ {j : ℕ} {b : Proxy π}, proxies[j]? = some b →
      ∃ b', ((proxies ++ new).modify id f)[j]? = some b' ∧ b'.basePath = b.basePath ∧
        ∀ key, (b.target.get? key).isSome → (b'.target.get? key).isSome := by
    intro j b hb
    have hj : j < proxies.length := (List.getElem?_eq_some_iff.mp hb).1
    rw [List.getElem?_modify, List.getElem?_append_left hj, hb]
    by_cases hij : id = j
    · exact ⟨f b, by simp [hij], hpath b, hgrows b⟩
    · exact ⟨b, by simp [hij], rfl, fun _ h => h⟩
  have hself : ((proxies ++ new).modify id f)[id]? = some (f p) := by
    rw [List.getElem?_modify, List.getElem?_append_left hlt, hp]
    simp
  constructor
  · rw [hpaths, List.map_append]
    refine List.nodup_append'.mpr ⟨h.nodup, ?_, ?_⟩
    · obtain rfl | ⟨child, key, rfl, -⟩ := hnew
      · exact List.nodup_nil
      · exact List.nodup_singleton _
    · intro path hpath hnew'
      obtain ⟨child, hchild, rfl⟩ := List.mem_map.mp hnew'
      exact hfresh child hchild hpath
  · intro j b hb
    rw [hpaths]
    obtain ⟨-, rfl⟩ | ⟨-, hb⟩ | hb := hcases hb
    · exact hvalid
    · obtain ⟨value, hvalue⟩ := h.valid j b hb
      rw [List.map_append]
      exact ⟨value, hvalue.mono⟩
    · obtain rfl | ⟨child, key, rfl, -, -, -, -, hchild⟩ := hnew
      · cases hb
      · rw [List.mem_singleton.mp hb]
        exact hchild
  · intro j b hb
    obtain ⟨-, rfl⟩ | ⟨-, hb⟩ | hb := hcases hb
    · rw [hpath]
      exact h.deep id p hp
    · exact h.deep j b hb
    · obtain rfl | ⟨child, key, rfl, hbase, -⟩ := hnew
      · cases hb
      · rw [List.mem_singleton.mp hb, hbase, List.length_append]
        exact Nat.le_add_right_of_le (h.deep id p hp)
  · intro j b hb
    have hold : ∀ {i : ℕ} {q : Proxy π}, proxies[i]? = some q → q.basePath = b.basePath →
        b.basePath = root ∨ ∃ (i' : ℕ) (p' : Proxy π) (key : String),
          ((proxies ++ new).modify id f)[i']? = some p' ∧ b.basePath = p'.basePath ++ [key] ∧
            (p'.target.get? key).isSome := by
      intro i q hq heq
      rw [← heq]
      obtain hroot | ⟨i', p', key, hp', hbase, hsome⟩ := h.parent i q hq
      · exact .inl hroot
      · obtain ⟨p'', hp'', hpath', hgrows'⟩ := hothers hp'
        exact .inr ⟨i', p'', key, hp'', by rw [hbase, hpath'], hgrows' key hsome⟩
    obtain ⟨-, rfl⟩ | ⟨-, hb⟩ | hb := hcases hb
    · exact hold hp (hpath p).symm
    · exact hold hb rfl
    · obtain rfl | ⟨child, key, rfl, hbase, -, hsome, -⟩ := hnew
      · cases hb
      · rw [List.mem_singleton.mp hb]
        exact .inr ⟨id, f p, key, hself, by rw [hbase, hpath], hsome⟩
  · intro j b hb hnone key
    obtain ⟨-, rfl⟩ | ⟨hne, hb⟩ | hb := hcases hb
    · rw [hpath]
      rw [hlength] at hnone
      exact hiff hnone key
    · have hother : b.basePath ≠ p.basePath := fun heq => hne (h.eq_of_basePath hb hp heq)
      rw [hmissed _ _ hother]
      exact h.missed_iff j b hb hnone key
    · obtain rfl | ⟨child, k, rfl, hbase, hkey, -, hempty, -⟩ := hnew
      · cases hb
      · obtain rfl := List.mem_singleton.mp hb
        rw [hempty]
        refine iff_of_false (fun hmem => ?_) fun heq => by cases heq
        have hother : b.basePath ≠ p.basePath := by
          intro heq
          have := congrArg List.length (hbase.symm.trans heq)
          rw [List.length_append, List.length_singleton] at this
          omega
        exact hfresh b hb (h.known _ ((hmissed _ _ hother).mp hmem))
  · intro entry hentry
    rw [hpaths, List.map_append]
    refine List.mem_append_left _ ?_
    by_cases heq : entry.1 = p.basePath
    · rw [heq]
      exact List.mem_map.mpr ⟨p, List.mem_of_getElem? hp, rfl⟩
    · exact h.known entry ((hmissed entry.1 entry.2 heq).mp hentry)

/-- What was asked for in vain, when a member is read. -/
def missedAfter (missed : List (List String × String)) (path : List String) (key : String) :
    Member π → List (List String × String)
  | .absent => (path, key) :: missed
  | _ => missed

theorem Represents.eq_undefined_iff {paths : List (List String)} {path : List String} {key : String}
    {m : Member π} {w : GuestValue π} (h : Represents paths path key m w) :
    w = .undefined ↔ m = .absent := by
  cases m with
  | own value =>
    refine iff_of_false (fun heq => ?_) fun heq => by cases heq
    subst heq
    cases value with
    | null => cases h
    | primitive => cases h
    | array =>
      obtain ⟨_, heq, -⟩ := h
      cases heq
    | object =>
      obtain ⟨_, heq, -⟩ := h
      cases heq
  | length =>
    cases h
    exact iff_of_false (fun heq => by cases heq) fun heq => by cases heq
  | inherited => cases h
  | absent => exact iff_of_true h rfl

section Learning

variable {data value : WorkflowData π} {root : List String}
  {missed : List (List String × String)} {proxies new : List (Proxy π)} {id : ℕ} {p : Proxy π}
  {key : String} {w : GuestValue π}

/-- A value is kept on the target. -/
theorem Sound.store (h : Sound data root missed proxies) (hp : proxies[id]? = some p)
    (hvalid : Valid data (proxies.map Proxy.basePath) p value) (hkey : p.target.get? key = none)
    (hproto : key ∉ p.prototypeKeys)
    (hobject : member value key = .absent → p.arrayLength? = none)
    (hw : Represents ((proxies ++ new).map Proxy.basePath) p.basePath key (member value key) w)
    (hnew : new = [] ∨ ∃ child, new = [child] ∧ child.basePath = p.basePath ++ [key] ∧
      child.target = .empty ∧
        ∃ value, Valid data ((proxies ++ new).map Proxy.basePath) child value) :
    Sound data root (missedAfter missed p.basePath key (member value key))
      (setTarget (proxies ++ new) id key w) := by
  have hset : ∀ (q : Proxy π) k, (q.target.get? k).isSome →
      ((q.target.set key w).get? k).isSome := by
    intro q k hk
    rw [get?_set]
    split_ifs
    · rfl
    · exact hk
  refine h.learn hp (fun _ => rfl) (fun _ => rfl) hset ⟨value, ?_⟩ ?_ ?_ ?_
  · refine ⟨hvalid.at_path, hvalid.describes, hvalid.fetched, fun k v hv => ?_, fun k v hv => ?_⟩
    · rw [get?_set] at hv
      split_ifs at hv with hk
      · subst hk
        cases hv
        exact ⟨hproto, hw⟩
      · obtain ⟨hmem, hrep⟩ := hvalid.target k v hv
        rw [List.map_append]
        exact ⟨hmem, hrep.mono⟩
    · rw [get?_set] at hv
      split_ifs at hv with hk
      · subst hk
        exact hobject
      · exact hvalid.absent k v hv
  · intro path k hne
    unfold missedAfter
    split
    · rw [List.mem_cons]
      refine ⟨fun hmem => hmem.resolve_left fun heq => hne (congrArg Prod.fst heq), .inr⟩
    · exact Iff.rfl
  · intro hnone k
    have hold := h.missed_iff id p hp hnone k
    dsimp only
    rw [get?_set]
    by_cases hk : k = key
    · subst hk
      rw [if_pos rfl, Option.some_inj, hw.eq_undefined_iff]
      constructor
      · intro hmem
        by_contra hne
        have hsame : missedAfter missed p.basePath k (member value k) = missed := by
          cases hm : member value k with
          | absent => exact absurd hm hne
          | _ => rfl
        rw [hsame, hold, hkey] at hmem
        cases hmem
      · intro habsent
        rw [habsent]
        exact List.mem_cons_self
    · rw [if_neg hk, ← hold]
      unfold missedAfter
      split
      · rw [List.mem_cons]
        exact ⟨fun hmem => hmem.resolve_left fun heq => hk (congrArg Prod.snd heq), .inr⟩
      · exact Iff.rfl
  · obtain rfl | ⟨child, rfl, hbase, hempty, hchild⟩ := hnew
    · exact .inl rfl
    · refine .inr ⟨child, key, rfl, hbase, hkey, ?_, hempty, hchild⟩
      rw [get?_set_self]
      rfl

/-- A new proxy for a container. -/
theorem valid_child (hvalid : Valid data (proxies.map Proxy.basePath) p value)
    {next : WorkflowData π}
    (hnext : member value key = .own next) {childMeta : ProxyMeta}
    (hmeta : Describes next (some childMeta)) (paths : List (List String)) :
    Valid data paths { basePath := p.basePath ++ [key], proxyMeta := some childMeta } next := by
  refine ⟨?_, hmeta, ?_, ?_, ?_⟩
  · rw [navigate_append hvalid.at_path hvalid.describes.ne_null, hnext]
  · intro keys hkeys
    cases hkeys
  · intro k v hv
    cases hv
  · intro k v hv
    cases hv

theorem map_basePath_setTarget (proxies : List (Proxy π)) (id : ℕ) (key : String)
    (w : GuestValue π) :
    (setTarget proxies id key w).map Proxy.basePath = proxies.map Proxy.basePath := by
  refine map_basePath_modify ?_ proxies id
  intro q
  rfl

/-- What is fetched stands for what the data have. -/
theorem materializeChild_spec (proxies : List (Proxy π))
    (hvalid : Valid data (proxies.map Proxy.basePath) p value)
    (hmember : (∃ next, member value key = .own next) ∨ member value key = .absent) :
    ∃ new w, materializeChild proxies p.basePath key (transferMember (member value key)) =
        (proxies ++ new, w) ∧
      Represents ((proxies ++ new).map Proxy.basePath) p.basePath key (member value key) w ∧
      (new = [] ∨ ∃ child, new = [child] ∧ child.basePath = p.basePath ++ [key] ∧
        child.target = .empty ∧
          ∃ value, Valid data ((proxies ++ new).map Proxy.basePath) child value) := by
  have hnone : ∀ w : GuestValue π, (proxies, w) = (proxies ++ [], w) := by
    intro w
    rw [List.append_nil]
  have hlast : ∀ child : Proxy π,
      ((proxies ++ [child]).map Proxy.basePath)[proxies.length]? = some child.basePath := by
    intro child
    simp
  obtain ⟨next, hnext⟩ | habsent := hmember
  · rw [hnext]
    cases next with
    | null => exact ⟨[], _, hnone _, rfl, .inl rfl⟩
    | primitive => exact ⟨[], _, hnone _, rfl, .inl rfl⟩
    | array items =>
      refine ⟨[_], _, rfl, ⟨_, rfl, hlast _⟩, .inr ⟨_, rfl, rfl, rfl, .array items, ?_⟩⟩
      exact valid_child hvalid hnext (.array items) _
    | object fields =>
      refine ⟨[_], _, rfl, ⟨_, rfl, hlast _⟩, .inr ⟨_, rfl, rfl, rfl, .object fields, ?_⟩⟩
      exact valid_child hvalid hnext (.object fields) _
  · rw [habsent]
    exact ⟨[], _, hnone _, rfl, .inl rfl⟩

/-- It is kept on the target. -/
theorem Sound.storeChild (h : Sound data root missed proxies) (hp : proxies[id]? = some p)
    (hvalid : Valid data (proxies.map Proxy.basePath) p value) (hkey : p.target.get? key = none)
    (hproto : key ∉ p.prototypeKeys)
    (hobject : member value key = .absent → p.arrayLength? = none)
    (hmember : (∃ next, member value key = .own next) ∨ member value key = .absent) :
    ∃ proxies' w, storeChild proxies id p.basePath key (transferMember (member value key)) =
        (proxies', .value w) ∧
      Sound data root (missedAfter missed p.basePath key (member value key)) proxies' ∧
      (∃ new, proxies'.map Proxy.basePath = proxies.map Proxy.basePath ++ new) ∧
      Represents (proxies'.map Proxy.basePath) p.basePath key (member value key) w := by
  obtain ⟨new, w, heq, hrep, hnew⟩ := materializeChild_spec proxies hvalid hmember
  refine ⟨_, w, ?_, h.store hp hvalid hkey hproto hobject hrep hnew, ?_, ?_⟩
  · rw [LazyProxy.storeChild, heq]
  · rw [map_basePath_setTarget, List.map_append]
    exact ⟨_, rfl⟩
  · rw [map_basePath_setTarget]
    exact hrep

/-! ### The traps -/

theorem Describes.container {m : Option ProxyMeta} (h : Describes value m) :
    (∃ items, value = .array items) ∨ ∃ fields, value = .object fields := by
  cases h with
  | array items => exact .inl ⟨items, rfl⟩
  | missing fields => exact .inr ⟨fields, rfl⟩
  | withoutKeys fields => exact .inr ⟨fields, rfl⟩
  | object fields => exact .inr ⟨fields, rfl⟩

theorem arrayLength?_of_array {items : List (WorkflowData π)}
    (h : Describes (.array items) p.proxyMeta) : p.arrayLength? = some items.length := by
  unfold Proxy.arrayLength?
  generalize p.proxyMeta = m at h
  cases h
  rfl

theorem arrayLength?_of_object {fields : List (String × WorkflowData π)}
    (h : Describes (.object fields) p.proxyMeta) : p.arrayLength? = none := by
  unfold Proxy.arrayLength?
  generalize p.proxyMeta = m at h
  cases h <;> rfl

theorem prototypeKeys_of_array {items : List (WorkflowData π)}
    (h : Describes (.array items) p.proxyMeta) : p.prototypeKeys = arrayKeys := by
  rw [Proxy.prototypeKeys, arrayLength?_of_array h]
  rfl

theorem prototypeKeys_of_object {fields : List (String × WorkflowData π)}
    (h : Describes (.object fields) p.proxyMeta) : p.prototypeKeys = inheritedKeys := by
  rw [Proxy.prototypeKeys, arrayLength?_of_object h]
  rfl

/-- What is known to be missed may be asked for again. -/
theorem Sound.missed_cons (h : Sound data root missed proxies) (hp : proxies[id]? = some p)
    (hkey : p.arrayLength? = none → p.target.get? key = some .undefined) :
    Sound data root ((p.basePath, key) :: missed) proxies := by
  refine ⟨h.nodup, h.valid, h.deep, h.parent, ?_, ?_⟩
  · intro j b hb hnone k
    rw [List.mem_cons, h.missed_iff j b hb hnone k]
    constructor
    · rintro (heq | hmem)
      · obtain rfl := h.eq_of_basePath hp hb (congrArg Prod.fst heq).symm
        rw [hp] at hb
        cases hb
        obtain rfl : k = key := congrArg Prod.snd heq
        exact hkey hnone
      · exact hmem
    · exact .inr
  · intro entry hentry
    obtain rfl | hmem := List.mem_cons.mp hentry
    · exact List.mem_map.mpr ⟨p, List.mem_of_getElem? hp, rfl⟩
    · exact h.known entry hmem

/-- A read of a property finds what the data have there. -/
def FoundAs (paths : List (List String)) (path : List String) (key : String) (m : Member π) :
    Found π → Prop
  | .value w => Represents paths path key m w
  | .inherited => m = .inherited

/-- The member of an array that is not one of its elements. -/
theorem member_array (items : List (WorkflowData π)) (hlength : key ≠ "length") :
    member (.array items) key =
      match isInArrayBounds items.length key with
      | some idx => (items[idx]?).elim .absent .own
      | none => if key ∈ arrayKeys then .inherited else .absent := by
  rw [member, if_neg hlength]
  cases hidx : isInArrayBounds items.length key with
  | none => rfl
  | some idx =>
    have hlt : idx < items.length := (isInArrayBounds_eq_some_iff.mp hidx).1
    simp [List.getElem?_eq_getElem hlt]

theorem lookup_eq_none_iff_notMem {α : Type*} {fields : List (String × α)} :
    fields.lookup key = none ↔ key ∉ fields.map Prod.fst := by
  rw [List.lookup_eq_none_iff]
  simp only [bne_iff_ne, List.mem_map, not_exists, not_and]
  exact ⟨fun hne field hfield heq => hne field hfield heq.symm,
    fun hne field hfield heq => hne field hfield heq.symm⟩

theorem member_object (fields : List (String × WorkflowData π)) (key : String) :
    member (.object fields) key =
      (fields.lookup key).elim (if key ∈ inheritedKeys then .inherited else .absent) .own := by
  rw [member]
  cases fields.lookup key <;> rfl

theorem notMem_arrayKeys_of_bounds {length idx : ℕ} (h : isInArrayBounds length key = some idx) :
    key ≠ "length" ∧ key ∉ arrayKeys := by
  obtain ⟨-, rfl⟩ := isInArrayBounds_eq_some_iff.mp h
  have hnot := toString_notMem idx
  exact ⟨fun heq => hnot (heq ▸ List.mem_cons_self), fun hmem => hnot (List.mem_cons_of_mem _ hmem)⟩

theorem get_spec (key : String) (h : Sound data root missed proxies) (hp : proxies[id]? = some p)
    (hvalid : Valid data (proxies.map Proxy.basePath) p value)
    (hown : ∀ fields, value = .object fields → key ∈ fields.map Prod.fst → key ∉ inheritedKeys) :
    Sound data root (missedAfter missed p.basePath key (member value key))
        (get data proxies id p key).1 ∧
      (∃ new, (get data proxies id p key).1.map Proxy.basePath =
        proxies.map Proxy.basePath ++ new) ∧
      FoundAs ((get data proxies id p key).1.map Proxy.basePath) p.basePath key (member value key)
        (get data proxies id p key).2 := by
  have hpaths : ∃ new, proxies.map Proxy.basePath = proxies.map Proxy.basePath ++ new :=
    ⟨[], (List.append_nil _).symm⟩
  have hcached : ∀ w, p.target.get? key = some w →
      Sound data root (missedAfter missed p.basePath key (member value key)) proxies ∧
        FoundAs (proxies.map Proxy.basePath) p.basePath key (member value key) (.value w) := by
    intro w hw
    obtain ⟨-, hrep⟩ := hvalid.target key w hw
    refine ⟨?_, hrep⟩
    cases hm : member value key with
    | absent =>
      rw [hm] at hrep
      obtain rfl : w = .undefined := hrep
      exact h.missed_cons hp fun _ => hw
    | _ => exact h
  have hstored : p.target.get? key = none → key ∉ p.prototypeKeys →
      (member value key = .absent → p.arrayLength? = none) →
      (∃ next, member value key = .own next) ∨ member value key = .absent →
      ∀ result, result = storeChild proxies id p.basePath key
        (transferMember (member value key)) →
      Sound data root (missedAfter missed p.basePath key (member value key)) result.1 ∧
        (∃ new, result.1.map Proxy.basePath = proxies.map Proxy.basePath ++ new) ∧
        FoundAs (result.1.map Proxy.basePath) p.basePath key (member value key) result.2 := by
    intro hkey hproto hobject hmember result hresult
    obtain ⟨proxies', w, heq, hsound, hnew, hrep⟩ :=
      h.storeChild hp hvalid hkey hproto hobject hmember
    rw [hresult, heq]
    exact ⟨hsound, hnew, hrep⟩
  obtain ⟨items, rfl⟩ | ⟨fields, rfl⟩ := hvalid.describes.container
  · have hproto := prototypeKeys_of_array hvalid.describes
    rw [get, arrayLength?_of_array hvalid.describes]
    by_cases hlength : key = "length"
    · subst hlength
      exact ⟨h, hpaths, rfl⟩
    · simp only [if_neg hlength]
      cases htarget : p.target.get? key with
      | some w => exact ⟨(hcached w htarget).1, hpaths, (hcached w htarget).2⟩
      | none =>
        have hm := member_array items hlength
        simp only [hproto]
        by_cases hkeys : key ∈ arrayKeys
        · have hbounds : isInArrayBounds items.length key = none :=
            Option.eq_none_iff_forall_ne_some.mpr fun idx hidx =>
              (notMem_arrayKeys_of_bounds hidx).2 hkeys
          rw [hbounds] at hm
          simp only [if_pos hkeys] at hm ⊢
          rw [hm]
          exact ⟨h, hpaths, rfl⟩
        · rw [if_neg hkeys] at hm ⊢
          cases hbounds : isInArrayBounds items.length key with
          | none =>
            rw [hbounds] at hm
            rw [hm]
            refine ⟨h.missed_cons hp fun hnone => ?_, hpaths, rfl⟩
            rw [arrayLength?_of_array hvalid.describes] at hnone
            cases hnone
          | some idx =>
            obtain ⟨hlt, hidx⟩ := isInArrayBounds_eq_some_iff.mp hbounds
            rw [hbounds] at hm
            have hitem : member (.array items) key = .own items[idx] := by
              rw [hm]
              simp [List.getElem?_eq_getElem hlt]
            refine hstored htarget (hproto ▸ hkeys) (fun habsent => ?_) (.inl ⟨_, hitem⟩) _ ?_
            · rw [hitem] at habsent
              cases habsent
            · simp only [getArrayElement_eq hvalid.at_path hlt, hidx]
  · have hproto := prototypeKeys_of_object hvalid.describes
    rw [get, arrayLength?_of_object hvalid.describes]
    simp only
    cases htarget : p.target.get? key with
    | some w => exact ⟨(hcached w htarget).1, hpaths, (hcached w htarget).2⟩
    | none =>
      simp only [hproto]
      have hm := member_object fields key
      by_cases hkeys : key ∈ inheritedKeys
      · have hlookup : fields.lookup key = none :=
          lookup_eq_none_iff_notMem.mpr fun hmem => hown fields rfl hmem hkeys
        rw [hlookup] at hm
        simp only [if_pos hkeys] at hm ⊢
        rw [hm]
        exact ⟨h, hpaths, rfl⟩
      · rw [if_neg hkeys] at hm ⊢
        refine hstored htarget (hproto ▸ hkeys)
          (fun _ => arrayLength?_of_object hvalid.describes) ?_ _ ?_
        · cases hlookup : fields.lookup key with
          | none =>
            rw [hm, hlookup]
            exact .inr rfl
          | some next =>
            rw [hm, hlookup]
            exact .inl ⟨next, rfl⟩
        · rw [getValueAtPath_append hvalid.at_path hvalid.describes.ne_null]

/-- An object has a key, as far as its target does not say so in error. -/
theorem has_spec (key : String) (h : Sound data root missed proxies) (hp : proxies[id]? = some p)
    (hvalid : Valid data (proxies.map Proxy.basePath) p value) :
    has data p key = true ↔ member value key ≠ .absent ∨
      p.arrayLength? = none ∧ (p.basePath, key) ∈ missed := by
  have hcached : ∀ w, p.target.get? key = some w →
      (member value key = .absent ↔ w = .undefined) :=
    fun w hw => ((hvalid.target key w hw).2.eq_undefined_iff).symm
  obtain ⟨items, rfl⟩ | ⟨fields, rfl⟩ := hvalid.describes.container
  · have hlen := arrayLength?_of_array hvalid.describes
    simp only [has, hlen, prototypeKeys_of_array hvalid.describes, reduceCtorEq, false_and,
      or_false, Bool.or_eq_true, decide_eq_true_eq, InsertionMap.has]
    by_cases hlength : key = "length"
    · subst hlength
      refine iff_of_true (.inl (.inl rfl)) fun heq => ?_
      cases heq
    · rw [member_array items hlength] at hcached ⊢
      cases hbounds : isInArrayBounds items.length key with
      | some idx =>
        have hlt := (isInArrayBounds_eq_some_iff.mp hbounds).1
        refine iff_of_true (.inr rfl) fun heq => ?_
        simp [List.getElem?_eq_getElem hlt] at heq
      | none =>
        by_cases hkeys : key ∈ arrayKeys
        · simp [hkeys]
        · simp only [hlength, hkeys, if_false, or_false, false_or, ne_eq, not_true, iff_false,
            Option.isSome_none, Bool.false_eq_true]
          intro hsome
          obtain ⟨w, hw⟩ := Option.isSome_iff_exists.mp hsome
          have habsent := hvalid.absent key w hw
          rw [member_array items hlength, hbounds] at habsent
          simp only [hkeys, if_false, hlen] at habsent
          cases habsent trivial
  · have hlen := arrayLength?_of_object hvalid.describes
    simp only [has, hlen, prototypeKeys_of_object hvalid.describes, true_and, Bool.or_eq_true,
      decide_eq_true_eq, getValueAtPath_append hvalid.at_path hvalid.describes.ne_null,
      h.missed_iff id p hp hlen, InsertionMap.has]
    cases htarget : p.target.get? key with
    | some w =>
      refine iff_of_true (.inl (.inl rfl)) ?_
      by_cases hundefined : w = .undefined
      · exact .inr (congrArg some hundefined)
      · exact .inl fun habsent => hundefined ((hcached w htarget).mp habsent)
    | none =>
      have hm := member_object fields key
      by_cases hkeys : key ∈ inheritedKeys
      · rw [if_pos hkeys] at hm
        refine iff_of_true (.inl (.inr hkeys)) (.inl ?_)
        rw [hm]
        cases fields.lookup key <;> exact fun heq => by cases heq
      · rw [if_neg hkeys] at hm
        rw [hm]
        cases fields.lookup key with
        | none => simp [hkeys, transferMember]
        | some next => cases next <;> simp [transferMember, transfer]

theorem resolveObjectKeys_spec {fields : List (String × WorkflowData π)}
    (h : Sound data root missed proxies) (hp : proxies[id]? = some p)
    (hvalid : Valid data (proxies.map Proxy.basePath) p (.object fields)) :
    ∃ proxies', resolveObjectKeys data proxies id p = (proxies', fields.map Prod.fst) ∧
      Sound data root missed proxies' ∧
      proxies'.map Proxy.basePath = proxies.map Proxy.basePath := by
  unfold resolveObjectKeys
  cases hkeys : p.objectKeys with
  | some keys =>
    refine ⟨proxies, ?_, h, rfl⟩
    have hdescribes := hvalid.describes
    unfold Proxy.objectKeys at hkeys
    generalize p.proxyMeta = m at hdescribes hkeys
    cases hdescribes with
    | missing => cases hkeys
    | withoutKeys => cases hkeys
    | object =>
      cases hkeys
      rfl
  | none =>
    cases hfetched : p.fetchedKeys with
    | some keys =>
      refine ⟨proxies, ?_, h, rfl⟩
      rw [hvalid.fetched keys hfetched]
      rfl
    | none =>
      have hget : getValueAtPath data p.basePath =
          .metadata (.object (fields.map Prod.fst)) := by
        rw [getValueAtPath, hvalid.at_path]
        rfl
      simp only [hget]
      refine ⟨_, rfl, ?_, map_basePath_modify ?_ _ _⟩
      swap
      · intro q
        rfl
      have hpaths : proxies.map Proxy.basePath = (proxies ++ []).map Proxy.basePath := by
        rw [List.append_nil]
      have hsound : Sound data root missed ((proxies ++ []).modify id fun p =>
          { p with fetchedKeys := some (fields.map Prod.fst) }) := by
        refine h.learn hp (fun _ => rfl) (fun _ => rfl) (fun _ _ hsome => hsome)
          ⟨.object fields, ?_⟩ (fun _ _ _ => Iff.rfl)
          (fun hnone key => h.missed_iff id p hp hnone key) (.inl rfl)
        rw [← hpaths]
        refine ⟨hvalid.at_path, hvalid.describes, ?_, hvalid.target, hvalid.absent⟩
        intro keys heq
        cases heq
        rfl
      rwa [List.append_nil] at hsound

theorem ownKeys_spec (h : Sound data root missed proxies) (hp : proxies[id]? = some p)
    (hvalid : Valid data (proxies.map Proxy.basePath) p value) :
    ∃ proxies', ownKeys data proxies id p = (proxies', DataState.ownKeys value) ∧
      Sound data root missed proxies' ∧
      proxies'.map Proxy.basePath = proxies.map Proxy.basePath := by
  unfold ownKeys
  obtain ⟨items, rfl⟩ | ⟨fields, rfl⟩ := hvalid.describes.container
  · rw [arrayLength?_of_array hvalid.describes]
    exact ⟨proxies, rfl, h, rfl⟩
  · rw [arrayLength?_of_object hvalid.describes]
    exact resolveObjectKeys_spec h hp hvalid

theorem getOwnPropertyDescriptor_spec (key : String) (h : Sound data root missed proxies)
    (hp : proxies[id]? = some p) (hvalid : Valid data (proxies.map Proxy.basePath) p value) :
    ∃ proxies', getOwnPropertyDescriptor data proxies id p key =
        (proxies', DataState.descriptor value key) ∧
      Sound data root missed proxies' ∧
      ∃ new, proxies'.map Proxy.basePath = proxies.map Proxy.basePath ++ new := by
  have hsame : ∃ new, proxies.map Proxy.basePath = proxies.map Proxy.basePath ++ new :=
    ⟨[], (List.append_nil _).symm⟩
  unfold getOwnPropertyDescriptor
  obtain ⟨items, rfl⟩ | ⟨fields, rfl⟩ := hvalid.describes.container
  · simp only [arrayLength?_of_array hvalid.describes, DataState.descriptor]
    by_cases hlength : key = "length"
    · simp only [if_pos hlength]
      exact ⟨proxies, rfl, h, hsame⟩
    · simp only [if_neg hlength]
      cases hbounds : isInArrayBounds items.length key with
      | none => exact ⟨proxies, rfl, h, hsame⟩
      | some idx =>
        obtain ⟨hsound, hnew, -⟩ := get_spec key h hp hvalid fun fields heq => by cases heq
        have hm := member_array items hlength
        have hlt := (isInArrayBounds_eq_some_iff.mp hbounds).1
        simp only [hbounds, List.getElem?_eq_getElem hlt, Option.elim_some] at hm
        rw [hm] at hsound
        exact ⟨_, rfl, hsound, hnew⟩
  · rw [arrayLength?_of_object hvalid.describes]
    obtain ⟨proxies', heq, hsound, hpaths⟩ := resolveObjectKeys_spec h hp hvalid
    simp only [heq]
    exact ⟨proxies', rfl, hsound, [], hpaths.trans (List.append_nil _).symm⟩

end Learning

/-! ### Reading -/

/-- The objects that were given on the data and through the proxies are the same. -/
structure Mirrors (data : WorkflowData π) (root : List String) (s : DataState π) (v : ViewState π) :
    Prop where
  sound : Sound data root s.missed v.proxies
  length_eq : v.objects.length = s.objects.length
  objects : ∀ (i : ℕ) path value, s.objects[i]? = some (path, value) → ∃ id : ℕ,
    v.objects[i]? = some id ∧ (v.proxies.map Proxy.basePath)[id]? = some path ∧
      navigate data path = .own value

section Reading

variable {data value : WorkflowData π} {root : List String} {s : DataState π} {v : ViewState π}

/-- The proxy of an object. -/
theorem Mirrors.proxy (h : Mirrors data root s v) {i : ℕ} {path : List String}
    (hi : s.objects[i]? = some (path, value)) : ∃ (id : ℕ) (p : Proxy π),
      v.objects[i]? = some id ∧ v.proxies[id]? = some p ∧ p.basePath = path ∧
        Valid data (v.proxies.map Proxy.basePath) p value := by
  obtain ⟨id, hid, hpath, hnavigate⟩ := h.objects i path value hi
  rw [List.getElem?_map] at hpath
  obtain ⟨p, hp, rfl⟩ := Option.map_eq_some_iff.mp hpath
  obtain ⟨value', hvalid⟩ := h.sound.valid id p hp
  have heq := hvalid.at_path.symm.trans hnavigate
  cases heq
  exact ⟨id, p, hid, hp, rfl, hvalid⟩

/-- The proxies may learn while no object is given. -/
theorem Mirrors.learn (h : Mirrors data root s v) {missed : List (List String × String)}
    {proxies : List (Proxy π)} {new : List (List String)} (hsound : Sound data root missed proxies)
    (hnew : proxies.map Proxy.basePath = v.proxies.map Proxy.basePath ++ new) :
    Mirrors data root { s with missed } { v with proxies } := by
  refine ⟨hsound, h.length_eq, fun i path value hi => ?_⟩
  obtain ⟨id, hid, hpath, hnavigate⟩ := h.objects i path value hi
  refine ⟨id, hid, ?_, hnavigate⟩
  obtain ⟨hlt, -⟩ := List.getElem?_eq_some_iff.mp hpath
  dsimp only
  rwa [hnew, List.getElem?_append_left hlt]

/-- One more object is given. -/
theorem Mirrors.give (h : Mirrors data root s v) {path : List String} {id : ℕ}
    (hid : (v.proxies.map Proxy.basePath)[id]? = some path)
    (hnavigate : navigate data path = .own value) :
    Mirrors data root { s with objects := s.objects ++ [(path, value)] }
      { v with objects := v.objects ++ [id] } := by
  refine ⟨h.sound, ?_, fun i place value' hi => ?_⟩
  · simp [h.length_eq]
  · dsimp only at hi ⊢
    by_cases hlt : i < s.objects.length
    · rw [List.getElem?_append_left hlt] at hi
      rw [List.getElem?_append_left (h.length_eq ▸ hlt)]
      exact h.objects i place value' hi
    · have hle := Nat.le_of_not_lt hlt
      rw [List.getElem?_append_right hle] at hi
      rw [List.getElem?_append_right (h.length_eq ▸ hle), h.length_eq]
      cases hzero : i - s.objects.length with
      | zero =>
        rw [hzero] at hi
        cases hi
        exact ⟨id, rfl, hid, hnavigate⟩
      | succ n =>
        rw [hzero] at hi
        cases hi

/-- A member is given alike. -/
theorem Mirrors.give_spec (h : Mirrors data root s v) {path : List String} {key : String}
    (hvalue : navigate data path = .own value) (hnull : value ≠ .null)
    {proxies : List (Proxy π)} {found : Found π} {new : List (List String)}
    (hsound : Sound data root (missedAfter s.missed path key (member value key)) proxies)
    (hnew : proxies.map Proxy.basePath = v.proxies.map Proxy.basePath ++ new)
    (hfound : FoundAs (proxies.map Proxy.basePath) path key (member value key) found) :
    (v.give (proxies, found)).2 = (s.give path key (member value key)).2 ∧
      Mirrors data root (s.give path key (member value key)).1 (v.give (proxies, found)).1 := by
  have hlearn := h.learn hsound hnew
  have hnavigate := navigate_append hvalue hnull key
  have hchild : ∀ {id : ℕ} {next : WorkflowData π}, member value key = .own next →
      (proxies.map Proxy.basePath)[id]? = some (path ++ [key]) →
        ∃ p, proxies[id]? = some p ∧ Valid data (proxies.map Proxy.basePath) p next := by
    intro id next hnext hid
    rw [List.getElem?_map] at hid
    obtain ⟨p, hp, hpath⟩ := Option.map_eq_some_iff.mp hid
    obtain ⟨next', hvalid⟩ := hsound.valid id p hp
    have heq := hvalid.at_path
    rw [hpath, hnavigate, hnext] at heq
    cases heq
    exact ⟨p, hp, hvalid⟩
  cases hm : member value key with
  | own next =>
    rw [hm] at hfound hlearn hnavigate
    cases found with
    | inherited => cases hfound
    | value w =>
      cases next with
      | null =>
        obtain rfl : w = .null := hfound
        exact ⟨rfl, hlearn⟩
      | primitive content =>
        obtain rfl : w = .primitive content := hfound
        exact ⟨rfl, hlearn⟩
      | array items =>
        obtain ⟨id, rfl, hid⟩ := hfound
        obtain ⟨p, hp, hvalid⟩ := hchild hm hid
        refine ⟨?_, hlearn.give hid hnavigate⟩
        simp only [ViewState.give, hp, Option.bind_some, arrayLength?_of_array hvalid.describes]
        rfl
      | object fields =>
        obtain ⟨id, rfl, hid⟩ := hfound
        obtain ⟨p, hp, hvalid⟩ := hchild hm hid
        refine ⟨?_, hlearn.give hid hnavigate⟩
        simp only [ViewState.give, hp, Option.bind_some, arrayLength?_of_object hvalid.describes]
        rfl
  | length n =>
    rw [hm] at hfound hlearn
    cases found with
    | inherited => cases hfound
    | value w =>
      obtain rfl : w = .number n := hfound
      exact ⟨rfl, hlearn⟩
  | inherited =>
    rw [hm] at hfound hlearn
    cases found with
    | inherited => exact ⟨rfl, hlearn⟩
    | value => cases hfound
  | absent =>
    rw [hm] at hfound hlearn
    cases found with
    | inherited => cases hfound
    | value w =>
      obtain rfl : w = .undefined := hfound
      exact ⟨rfl, hlearn⟩

theorem Mirrors.readView_eq (h : Mirrors data root s v) (read : Read) {path : List String}
    (hi : s.objects[read.object]? = some (path, value)) : ∃ (id : ℕ) (p : Proxy π),
      readView data v read = v.readAt data id p read ∧ v.proxies[id]? = some p ∧
        p.basePath = path ∧ Valid data (v.proxies.map Proxy.basePath) p value := by
  obtain ⟨id, p, hid, hp, hpath, hvalid⟩ := h.proxy hi
  refine ⟨id, p, ?_, hp, hpath, hvalid⟩
  simp only [readView, hid, hp, Option.bind_some, Option.map_some]

/-- A read that is not disturbed gives the same. -/
theorem Mirrors.readView_spec (h : Mirrors data root s v) {read : Read}
    (hread : ¬ Disturbed s read) :
    (readView data v read).2 = (readData s read).2 ∧
      Mirrors data root (readData s read).1 (readView data v read).1 := by
  cases hi : s.objects[read.object]? with
  | none =>
    have hv : v.objects[read.object]? = none := by
      rw [List.getElem?_eq_none_iff] at hi ⊢
      rwa [h.length_eq]
    simp only [readView, readData, hi, hv, Option.bind_none]
    exact ⟨trivial, h⟩
  | some object =>
    obtain ⟨path, value⟩ := object
    obtain ⟨id, p, heq, hp, rfl, hvalid⟩ := h.readView_eq read hi
    rw [heq]
    simp only [readData, hi]
    cases read with
    | get object key =>
      obtain ⟨hsound, ⟨new, hnew⟩, hfound⟩ := get_spec key h.sound hp hvalid fun fields hfields hown
        hinherited => hread ⟨p.basePath, fields, hfields ▸ hi, hown, hinherited⟩
      exact h.give_spec hvalid.at_path hvalid.describes.ne_null hsound hnew hfound
    | has object key =>
      refine ⟨congrArg Observed.present ?_, h⟩
      have hspec := has_spec key h.sound hp hvalid
      have hmissed : ¬ (p.arrayLength? = none ∧ (p.basePath, key) ∈ s.missed) := by
        intro ⟨hnone, hmem⟩
        obtain ⟨items, rfl⟩ | ⟨fields, rfl⟩ := hvalid.describes.container
        · rw [arrayLength?_of_array hvalid.describes] at hnone
          cases hnone
        · exact hread ⟨p.basePath, fields, hi, hmem⟩
      rw [Bool.eq_iff_iff, hspec]
      cases member value key <;> simp [hmissed]
    | ownKeys object =>
      obtain ⟨proxies, hkeys, hsound, hpaths⟩ := ownKeys_spec h.sound hp hvalid
      simp only [ViewState.readAt, DataState.readAt, hkeys]
      exact ⟨trivial, h.learn hsound (hpaths.trans (List.append_nil _).symm)⟩
    | descriptor object key =>
      obtain ⟨proxies, henumerable, hsound, new, hnew⟩ :=
        getOwnPropertyDescriptor_spec key h.sound hp hvalid
      simp only [ViewState.readAt, DataState.readAt, henumerable]
      exact ⟨trivial, h.learn hsound hnew⟩
    | iterator object =>
      refine ⟨congrArg Observed.value ?_, h⟩
      obtain ⟨items, rfl⟩ | ⟨fields, rfl⟩ := hvalid.describes.container
      · rw [arrayLength?_of_array hvalid.describes]
        rfl
      · rw [arrayLength?_of_object hvalid.describes]
        rfl

/-- A disturbed read gives something else. -/
theorem Mirrors.readView_ne (h : Mirrors data root s v) {read : Read} (hread : Disturbed s read) :
    (readView data v read).2 ≠ (readData s read).2 := by
  cases read with
  | get object key =>
    obtain ⟨path, fields, hi, hown, hinherited⟩ := hread
    obtain ⟨id, p, heq, hp, rfl, hvalid⟩ := h.readView_eq (.get object key) hi
    rw [heq]
    simp only [readData, Read.object, hi]
    have htarget : p.target.get? key = none := by
      by_contra hsome
      obtain ⟨w, hw⟩ := Option.ne_none_iff_exists'.mp hsome
      refine (hvalid.target key w hw).1 ?_
      rwa [prototypeKeys_of_object hvalid.describes]
    have hget : get data v.proxies id p key = (v.proxies, .inherited) := by
      simp [get, arrayLength?_of_object hvalid.describes, htarget,
        prototypeKeys_of_object hvalid.describes, hinherited]
    simp only [ViewState.readAt, hget, ViewState.give, DataState.readAt]
    cases hlookup : fields.lookup key with
    | none => exact absurd hown (lookup_eq_none_iff_notMem.mp hlookup)
    | some next =>
      rw [member_object, hlookup]
      cases next <;> exact fun heq => by cases heq
  | has object key =>
    obtain ⟨path, fields, hi, hmem⟩ := hread
    obtain ⟨id, p, heq, hp, rfl, hvalid⟩ := h.readView_eq (.has object key) hi
    rw [heq]
    simp only [readData, Read.object, hi]
    have hlen := arrayLength?_of_object hvalid.describes
    have hhas : has data p key = true := (has_spec key h.sound hp hvalid).mpr (.inr ⟨hlen, hmem⟩)
    have hcached := (h.sound.missed_iff id p hp hlen key).mp hmem
    have habsent := (hvalid.target key _ hcached).2.eq_undefined_iff.mp rfl
    simp only [ViewState.readAt, DataState.readAt, hhas, habsent]
    exact fun heq => by cases heq
  | ownKeys => exact hread.elim
  | descriptor => exact hread.elim
  | iterator => exact hread.elim

end Reading

/-- A key that objects do not inherit is read as it is. -/
theorem not_disturbed_get {s : DataState π} {object : ℕ} {key : String}
    (hkey : key ∉ inheritedKeys) : ¬ Disturbed s (.get object key) :=
  fun ⟨_, _, _, _, hinherited⟩ => hkey hinherited

/-- The iteration of an array is not disturbed. -/
theorem throughout_iterate (object : ℕ) {next : ExpressionCode π}
    (hnext : ∀ s, Dialogue.Throughout readData (fun s read => ¬ Disturbed s read) s next)
    (count index : ℕ) (s : DataState π) :
    Dialogue.Throughout readData (fun s read => ¬ Disturbed s read) s
      (iterate object index count next) := by
  have hlength : "length" ∉ inheritedKeys := by decide
  induction count generalizing index s with
  | zero => exact ⟨not_disturbed_get hlength, hnext _⟩
  | succ count ih =>
    have hindex : toString index ∉ inheritedKeys := fun hmem =>
      toString_notMem index (List.mem_cons_of_mem _ (List.mem_append_right _ hmem))
    exact ⟨not_disturbed_get hlength, not_disturbed_get hindex, ih _ _⟩

/-- The state in which expression code gets a value. -/
def DataState.start (path : List String) (value : WorkflowData π) : DataState π where
  objects := [(path, value)]

/-- The state in which expression code gets a proxy. -/
def ViewState.start (path : List String) (proxyMeta : Option ProxyMeta) : ViewState π where
  proxies := [{ basePath := path, proxyMeta }]
  objects := [0]

theorem mirrors_start {data value : WorkflowData π} {path : List String} {m : Option ProxyMeta}
    (hvalue : navigate data path = .own value) (hmeta : Describes value m) :
    Mirrors data path (DataState.start path value) (ViewState.start path m) := by
  have hone : ∀ {id : ℕ} {p : Proxy π}, (ViewState.start path m).proxies[id]? = some p →
      p = { basePath := path, proxyMeta := m } := by
    intro id p hp
    cases id with
    | zero =>
      cases hp
      rfl
    | succ id => cases hp
  refine ⟨⟨List.nodup_singleton _, ?_, ?_, ?_, ?_, ?_⟩, rfl, ?_⟩
  · intro id p hp
    obtain rfl := hone hp
    refine ⟨value, hvalue, hmeta, ?_, ?_, ?_⟩
    · intro keys hkeys
      cases hkeys
    · intro key w hw
      cases hw
    · intro key w hw
      cases hw
  · intro id p hp
    obtain rfl := hone hp
    exact le_rfl
  · intro id p hp
    obtain rfl := hone hp
    exact .inl rfl
  · intro id p hp _ key
    obtain rfl := hone hp
    exact iff_of_false List.not_mem_nil fun h => by cases h
  · intro entry hentry
    cases hentry
  · intro i place value' hi
    cases i with
    | zero =>
      cases hi
      exact ⟨0, rfl, rfl, hvalue⟩
    | succ i => cases hi

/-- **When the lazy view is faithful.** Expression code that gets a proxy for a place in the data
sees what it would see on the data, if and only if it makes no read that is disturbed. -/
theorem answers_eq_iff_undisturbed {data value : WorkflowData π} {path : List String}
    {m : Option ProxyMeta} (hvalue : navigate data path = .own value) (hmeta : Describes value m)
    (code : ExpressionCode π) :
    Dialogue.answers (readView data) (ViewState.start path m) code =
        Dialogue.answers readData (DataState.start path value) code ↔
      Dialogue.Throughout readData (fun s read => ¬ Disturbed s read) (DataState.start path value)
        code :=
  Dialogue.answers_eq_iff (fun _ _ _ h hread => h.readView_spec hread)
    (fun _ _ _ h hread => h.readView_ne (not_not.mp hread)) (mirrors_start hvalue hmeta) code

/-- A field `toString`, and an array. -/
def sampleFields : List (String × WorkflowData ℕ) :=
  [("toString", .primitive 1), ("items", .array [.primitive 2, .null])]

def sampleData : WorkflowData ℕ := .object [("$json", .object sampleFields)]

theorem navigate_sampleData : navigate sampleData ["$json"] = .own (.object sampleFields) := by
  rfl

/-- A copy of an object gets what the object inherits in place of its own `toString`. -/
theorem not_answers_eq_spread :
    ¬ ∀ (data value : WorkflowData ℕ) (path : List String) (m : Option ProxyMeta),
      navigate data path = .own value → Describes value m → ∀ code : ExpressionCode ℕ,
        Dialogue.answers (readView data) (ViewState.start path m) code =
          Dialogue.answers readData (DataState.start path value) code := by
  intro h
  have heq := h sampleData (.object sampleFields) ["$json"] _ navigate_sampleData (.object _)
    (spread 0 .done)
  have hitem := congrArg (fun answers => answers[2]?) heq
  cases hitem

theorem answers_eq_iff_undisturbed_iterate :
    Dialogue.answers (readView sampleData)
        (ViewState.start ["$json"] (some (.object (some (sampleFields.map Prod.fst)))))
        (.ask (.get 0 "items") fun _ => iterate 1 0 2 .done) =
      Dialogue.answers readData (DataState.start ["$json"] (.object sampleFields))
        (.ask (.get 0 "items") fun _ => iterate 1 0 2 .done) := by
  refine (answers_eq_iff_undisturbed navigate_sampleData (.object _) _).mpr ?_
  refine ⟨not_disturbed_get (by decide), ?_⟩
  have hdone : ∀ s : DataState ℕ,
      Dialogue.Throughout readData (fun s read => ¬ Disturbed s read) s .done := fun _ => trivial
  exact throughout_iterate 1 hdone 2 0 _

end LazyProxy

end N8n
