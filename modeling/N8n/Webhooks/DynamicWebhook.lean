import Mathlib.Data.List.Forall2
import Mathlib.Data.Nat.Basic
import N8n.Webhooks.WebhookService

/-!
# The lookup of dynamic webhooks

A path with parameters, such as `user/:id/posts`, is looked up by the id in front of the request
path and the number of segments behind it. Among the rows found, the lookup keeps the first of
those with the most static segments, and it takes a row in when its static segments occur
*somewhere* in the request.

So the row returned need not match the request position by position. It does exactly when every
row that is taken in but does not match is beaten by one that does (`findsBest_iff`).
-/

namespace N8n

/-- The segments of a path. -/
def segments (path : String) : List (List Char) := path.toList.splitOn '/'

def isParameter (segment : List Char) : Bool := segment.head? = some ':'

namespace WebhookEntity

def staticSegments (webhook : WebhookEntity) : List (List Char) :=
  (segments webhook.webhookPath).filter (!isParameter ·)

def isDynamic (webhook : WebhookEntity) : Bool := (segments webhook.webhookPath).any isParameter

end WebhookEntity

namespace DynamicWebhook

/-! ## The source -/

/-- What the reduction over the rows carries. -/
structure Best where
  webhook : Option WebhookEntity
  maxMatches : ℕ
  deriving DecidableEq, Repr

def consider (requestSegments : List (List Char)) (acc : Best) (dw : WebhookEntity) : Best :=
  if dw.staticSegments ⊆ requestSegments ∧ acc.maxMatches < dw.staticSegments.length then
    ⟨some dw, dw.staticSegments.length⟩
  else if dw.staticSegments.length = 0 ∧ acc.webhook = none then
    -- the path has parameters only
    { acc with webhook := some dw }
  else acc

/-- The rows of the webhook id, the method and the number of segments. -/
def dynamicWebhooks (table : WebhookRepository) (path : String) (method : IHttpRequestMethods) :
    List WebhookEntity :=
  table.rows.filter fun row =>
    row.webhookId = (segments path).head?.map String.ofList ∧ row.method = method ∧
      row.pathLength = some (segments path).tail.length

def findDynamicWebhook (table : WebhookRepository) (path : String)
    (method : IHttpRequestMethods) : Option WebhookEntity :=
  ((dynamicWebhooks table path method).foldl (consider (segments path).tail) ⟨none, 0⟩).webhook

/-- `findWebhook` of the live webhooks removes a trailing slash. -/
def removeTrailingSlash (path : String) : String :=
  if path.toList.getLast? = some '/' then String.ofList path.toList.dropLast else path

/-- Request parameters. A path element that is not there is `undefined`. -/
abbrev Params := InsertionMap (List Char) (Option (List Char))

def protoName : List Char := "__proto__".toList

/-- An assignment to a property of a plain object: a text assigned to `__proto__` is dropped. -/
def setParam (params : Params) (name : List Char) (value : Option (List Char)) : Params :=
  if name = protoName then params else params.set name value

/-- `executeWebhook`, as far as the request parameters. -/
def extractParams (pathElements : List (List Char)) :
    ℕ → List (List Char) → Params → Params
  | _, [], params => params
  | index, ele :: elements, params =>
    extractParams pathElements (index + 1) elements
      (if isParameter ele then setParam params ele.tail pathElements[index]? else params)

def requestParams (webhook : WebhookEntity) (path : String) : Params :=
  if webhook.isDynamic then
    extractParams (segments path).tail 0 (segments webhook.webhookPath) .empty
  else .empty

/-! ## What a lookup should find -/

/-- Position by position: a static segment is the request's segment. -/
def Matches (webhook : WebhookEntity) (requestSegments : List (List Char)) : Prop :=
  List.Forall₂ (fun ele segment => isParameter ele ∨ ele = segment) (segments webhook.webhookPath)
    requestSegments

/-- The request's segment at the position of a parameter, at the last one where names repeat. -/
def segmentAt (name : List Char) : List (List Char) → List (List Char) → Option (List Char)
  | ele :: elements, segment :: rest =>
    (segmentAt name elements rest).or (if ele = ':' :: name then some segment else none)
  | _, _ => none

/-- The lookup of a request, and the parameters that the webhook found takes from it. -/
structure FindsBest (table : WebhookRepository) (path : String) (method : IHttpRequestMethods) :
    Prop where
  sound : ∀ webhook, findDynamicWebhook table (removeTrailingSlash path) method = some webhook →
    webhook ∈ dynamicWebhooks table (removeTrailingSlash path) method ∧
      Matches webhook (segments (removeTrailingSlash path)).tail
  complete : findDynamicWebhook table (removeTrailingSlash path) method = none →
    ∀ webhook ∈ dynamicWebhooks table (removeTrailingSlash path) method,
      ¬Matches webhook (segments (removeTrailingSlash path)).tail
  maximal : ∀ webhook, findDynamicWebhook table (removeTrailingSlash path) method = some webhook →
    ∀ other ∈ dynamicWebhooks table (removeTrailingSlash path) method,
      Matches other (segments (removeTrailingSlash path)).tail →
        other.staticSegments.length ≤ webhook.staticSegments.length
  params : ∀ webhook, findDynamicWebhook table (removeTrailingSlash path) method = some webhook →
    ∀ name, (requestParams webhook path).get? name =
      (segmentAt name (segments webhook.webhookPath)
        (segments (removeTrailingSlash path)).tail).map some

/-! ## The row that the reduction keeps -/

variable {requestSegments : List (List Char)} {seen : List WebhookEntity} {acc : Best}
  {webhook dw : WebhookEntity}

/-- The row is taken in: its static segments occur in the request. -/
def TakenIn (requestSegments : List (List Char)) (webhook : WebhookEntity) : Prop :=
  webhook.staticSegments ⊆ requestSegments

/-- The first of the rows taken in that have the most static segments. -/
def IsFirstBest (requestSegments : List (List Char)) (seen : List WebhookEntity)
    (webhook : WebhookEntity) : Prop :=
  TakenIn requestSegments webhook ∧ ∃ before after, seen = before ++ webhook :: after ∧
    (∀ other ∈ before, TakenIn requestSegments other →
      other.staticSegments.length < webhook.staticSegments.length) ∧
    ∀ other ∈ after, TakenIn requestSegments other →
      other.staticSegments.length ≤ webhook.staticSegments.length

/-- What the reduction knows of the rows it has seen. -/
def Best.Knows (acc : Best) (requestSegments : List (List Char)) (seen : List WebhookEntity) :
    Prop :=
  match acc.webhook with
  | none => acc.maxMatches = 0 ∧ ∀ other ∈ seen, ¬TakenIn requestSegments other
  | some webhook =>
    acc.maxMatches = webhook.staticSegments.length ∧ IsFirstBest requestSegments seen webhook

/-- Every row taken in so far has at most the static segments of the best. -/
theorem Best.Knows.le_maxMatches (h : acc.Knows requestSegments seen) {other : WebhookEntity}
    (hmem : other ∈ seen) (htaken : TakenIn requestSegments other) :
    other.staticSegments.length ≤ acc.maxMatches := by
  obtain ⟨best, maxMatches⟩ := acc
  cases best with
  | none => exact absurd htaken (h.2 other hmem)
  | some webhook =>
    obtain ⟨hmax, -, before, after, rfl, hbefore, hafter⟩ := h
    rw [show maxMatches = _ from hmax]
    rcases List.mem_append.mp hmem with hfirst | hrest
    · exact (hbefore other hfirst htaken).le
    · rcases List.mem_cons.mp hrest with rfl | hlater
      · exact le_rfl
      · exact hafter other hlater htaken

/-- A row that beats all before it. -/
theorem isFirstBest_append (htaken : TakenIn requestSegments dw)
    (h : ∀ other ∈ seen, TakenIn requestSegments other →
      other.staticSegments.length < dw.staticSegments.length) :
    IsFirstBest requestSegments (seen ++ [dw]) dw :=
  ⟨htaken, seen, [], rfl, h, fun _ hmem => absurd hmem List.not_mem_nil⟩

/-- A row that does not beat the best. -/
theorem IsFirstBest.append (h : IsFirstBest requestSegments seen webhook)
    (hdw : TakenIn requestSegments dw →
      dw.staticSegments.length ≤ webhook.staticSegments.length) :
    IsFirstBest requestSegments (seen ++ [dw]) webhook := by
  obtain ⟨htaken, before, after, rfl, hbefore, hafter⟩ := h
  refine ⟨htaken, before, after ++ [dw], List.append_assoc _ _ _, hbefore, fun other hmem => ?_⟩
  rcases List.mem_append.mp hmem with hold | hnew
  · exact hafter other hold
  · rw [List.mem_singleton.mp hnew]
    exact hdw

theorem Best.Knows.consider (h : acc.Knows requestSegments seen) (dw : WebhookEntity) :
    (consider requestSegments acc dw).Knows requestSegments (seen ++ [dw]) := by
  unfold DynamicWebhook.consider
  split
  · rename_i hmore
    exact ⟨rfl, isFirstBest_append hmore.1 fun other hmem htaken =>
      (h.le_maxMatches hmem htaken).trans_lt hmore.2⟩
  rename_i hmore
  obtain ⟨best, maxMatches⟩ := acc
  split
  · rename_i hparameters
    obtain ⟨hnil, hnone : best = none⟩ := hparameters
    subst hnone
    have htaken : TakenIn requestSegments dw := by
      rw [TakenIn, List.length_eq_zero_iff.mp hnil]
      exact List.nil_subset _
    exact ⟨h.1.trans hnil.symm,
      isFirstBest_append htaken fun other hmem hother => absurd hother (h.2 other hmem)⟩
  · rename_i hparameters
    have hle (htaken : TakenIn requestSegments dw) : dw.staticSegments.length ≤ maxMatches :=
      not_lt.mp fun hlt => hmore ⟨htaken, hlt⟩
    cases best with
    | some webhook =>
      have hmax : maxMatches = webhook.staticSegments.length := h.1
      exact ⟨h.1, h.2.append (hmax ▸ hle)⟩
    | none =>
      refine ⟨h.1, fun other hmem hother => ?_⟩
      rcases List.mem_append.mp hmem with hold | hnew
      · exact h.2 other hold hother
      · rw [List.mem_singleton.mp hnew] at hother
        have hmax : maxMatches = 0 := h.1
        exact hparameters ⟨Nat.le_zero.mp (hmax ▸ hle hother), rfl⟩

theorem Best.Knows.foldl (h : acc.Knows requestSegments seen) (rows : List WebhookEntity) :
    (rows.foldl (DynamicWebhook.consider requestSegments) acc).Knows requestSegments
      (seen ++ rows) := by
  induction rows generalizing acc seen with
  | nil =>
    rw [List.append_nil]
    exact h
  | cons dw rows ih =>
    rw [List.append_cons]
    exact ih (h.consider dw)

section Lookup

variable {table : WebhookRepository} {path : String} {method : IHttpRequestMethods}

theorem knows_findDynamicWebhook (table : WebhookRepository) (path : String)
    (method : IHttpRequestMethods) :
    ((dynamicWebhooks table path method).foldl (consider (segments path).tail) ⟨none, 0⟩).Knows
      (segments path).tail (dynamicWebhooks table path method) := by
  have hstart : (⟨none, 0⟩ : Best).Knows (segments path).tail [] :=
    ⟨rfl, fun _ hmem => absurd hmem List.not_mem_nil⟩
  exact hstart.foldl _

/-- **The lookup returns the first best of the rows taken in.** -/
theorem isFirstBest_of_findDynamicWebhook
    (h : findDynamicWebhook table path method = some webhook) :
    IsFirstBest (segments path).tail (dynamicWebhooks table path method) webhook := by
  have hknows := knows_findDynamicWebhook table path method
  rw [findDynamicWebhook] at h
  rw [Best.Knows, h] at hknows
  exact hknows.2

theorem not_takenIn_of_findDynamicWebhook (h : findDynamicWebhook table path method = none) :
    ∀ other ∈ dynamicWebhooks table path method, ¬TakenIn (segments path).tail other := by
  have hknows := knows_findDynamicWebhook table path method
  rw [findDynamicWebhook] at h
  rw [Best.Knows, h] at hknows
  exact hknows.2

end Lookup

theorem static_subset_of_forall₂ {elements rest : List (List Char)}
    (h : List.Forall₂ (fun ele segment => isParameter ele ∨ ele = segment) elements rest) :
    elements.filter (!isParameter ·) ⊆ rest := by
  induction h with
  | nil => exact List.nil_subset _
  | @cons ele segment _ _ heq _ ih =>
    have hrest := List.subset_cons_of_subset segment ih
    cases hparameter : isParameter ele with
    | true =>
      rw [List.filter_cons_of_neg (by rw [hparameter]; exact Bool.false_ne_true)]
      exact hrest
    | false =>
      rw [List.filter_cons_of_pos (by rw [hparameter]; rfl)]
      have hsame : ele = segment := heq.resolve_left (hparameter ▸ Bool.false_ne_true)
      exact List.cons_subset.mpr ⟨hsame ▸ List.mem_cons_self, hrest⟩

/-- A row that matches is taken in. -/
theorem Matches.takenIn (h : Matches webhook requestSegments) :
    TakenIn requestSegments webhook :=
  static_subset_of_forall₂ h

/-! ## The parameters -/

/-- The path element that names a parameter `__proto__`. -/
def protoParameter : List Char := ':' :: protoName

theorem get?_setParam (params : Params) {ele : List Char} (hparameter : isParameter ele)
    (hproto : ele ≠ protoParameter) (value : Option (List Char)) (name : List Char) :
    (setParam params ele.tail value).get? name =
      (if ele = ':' :: name then some value else none).or (params.get? name) := by
  obtain ⟨rest, rfl⟩ : ∃ rest, ele = ':' :: rest := by
    cases ele with
    | nil => cases hparameter
    | cons c rest => exact ⟨rest, by rw [Option.some.inj (of_decide_eq_true hparameter)]⟩
  have hrest : rest ≠ protoName := fun heq => hproto (congrArg (List.cons ':') heq)
  rw [setParam, List.tail_cons, if_neg hrest, InsertionMap.get?_set]
  by_cases hname : name = rest
  · rw [if_pos hname, if_pos (by rw [hname])]
    rfl
  · rw [if_neg hname, if_neg fun heq => hname (List.cons.inj heq).2.symm]
    rfl

/-- Each parameter has the segment at the last position of its name. -/
theorem get?_extractParams {elements rest : List (List Char)}
    (hlength : elements.length = rest.length) (hproto : protoParameter ∉ elements)
    (before extra : List (List Char)) (params : Params) (name : List Char) :
    (extractParams (before ++ (rest ++ extra)) before.length elements params).get? name =
      ((segmentAt name elements rest).map some).or (params.get? name) := by
  induction elements generalizing before rest params with
  | nil => rfl
  | cons ele elements ih =>
    cases rest with
    | nil => cases hlength
    | cons segment rest =>
      rw [List.mem_cons, not_or] at hproto
      have hget : (before ++ (segment :: rest ++ extra))[before.length]? = some segment := by
        rw [List.getElem?_append_right le_rfl, Nat.sub_self]
        rfl
      have hstep := ih (Nat.succ.inj hlength) hproto.2 (before ++ [segment])
        (if isParameter ele then setParam params ele.tail (some segment) else params)
      rw [List.length_append, List.append_assoc] at hstep
      rw [extractParams, hget]
      refine hstep.trans ?_
      rw [segmentAt, Option.map_or, Option.or_assoc]
      congr 1
      split
      · rename_i hparameter
        rw [get?_setParam params hparameter (Ne.symm hproto.1)]
        split
        · rfl
        · rfl
      · rename_i hparameter
        rw [if_neg fun heq => hparameter (by rw [heq]; rfl)]
        rfl

theorem extractParams_of_static {elements : List (List Char)}
    (h : elements.any isParameter = false) (pathElements : List (List Char)) (index : ℕ)
    (params : Params) : extractParams pathElements index elements params = params := by
  induction elements generalizing index with
  | nil => rfl
  | cons ele elements ih =>
    rw [List.any_cons, Bool.or_eq_false_iff] at h
    rw [extractParams, h.1, if_neg Bool.false_ne_true, ih h.2]

/-- The test for parameters only saves work. -/
theorem requestParams_eq (webhook : WebhookEntity) (path : String) :
    requestParams webhook path =
      extractParams (segments path).tail 0 (segments webhook.webhookPath) .empty := by
  unfold requestParams
  split
  · rfl
  · rename_i hstatic
    exact (extractParams_of_static (Bool.not_eq_true _ ▸ hstatic) _ _ _).symm

/-- `__proto__` is never a request parameter. -/
theorem get?_proto_extractParams (pathElements elements : List (List Char)) (index : ℕ)
    {params : Params} (h : params.get? protoName = none) :
    (extractParams pathElements index elements params).get? protoName = none := by
  induction elements generalizing index params with
  | nil => exact h
  | cons ele elements ih =>
    refine ih _ ?_
    split
    · unfold setParam
      split
      · exact h
      · rename_i hne
        rw [InsertionMap.get?_set_of_ne _ (Ne.symm hne), h]
    · exact h

theorem isSome_segmentAt {name : List Char} {elements rest : List (List Char)}
    (hlength : elements.length = rest.length) (hmem : ':' :: name ∈ elements) :
    (segmentAt name elements rest).isSome := by
  induction elements generalizing rest with
  | nil => exact absurd hmem List.not_mem_nil
  | cons ele elements ih =>
    cases rest with
    | nil => cases hlength
    | cons segment rest =>
      rw [segmentAt, Option.isSome_or, Bool.or_eq_true]
      rcases List.mem_cons.mp hmem with rfl | hlater
      · rw [if_pos rfl]
        exact Or.inr rfl
      · exact Or.inl (ih (Nat.succ.inj hlength) hlater)

/-- A trailing slash is one more segment. -/
theorem segments_removeTrailingSlash (path : String) :
    ∃ extra, (segments path).tail = (segments (removeTrailingSlash path)).tail ++ extra := by
  unfold removeTrailingSlash
  split
  · rename_i hslash
    have hpath : path.toList = path.toList.dropLast ++ ['/'] := by
      rw [List.dropLast_append_getLast? _ hslash]
    refine ⟨[[]], ?_⟩
    rw [segments, hpath, List.splitOn_append_cons_self, List.splitOn_nil, segments,
      String.toList_ofList, List.dropLast_concat,
      List.tail_append_of_ne_nil (List.splitOn_ne_nil _ _)]
  · exact ⟨[], (List.append_nil _).symm⟩

/-- The webhook that a request finds takes its parameters from it, unless one is `__proto__`. -/
theorem get?_requestParams_iff {path : String}
    (hmatch : Matches webhook (segments (removeTrailingSlash path)).tail) :
    (∀ name, (requestParams webhook path).get? name =
      (segmentAt name (segments webhook.webhookPath)
        (segments (removeTrailingSlash path)).tail).map some) ↔
      protoParameter ∉ segments webhook.webhookPath := by
  obtain ⟨extra, hextra⟩ := segments_removeTrailingSlash path
  rw [requestParams_eq, hextra]
  constructor
  · intro h hmem
    have hsome := isSome_segmentAt (List.Forall₂.length_eq hmatch) hmem
    have hnone := get?_proto_extractParams
      ((segments (removeTrailingSlash path)).tail ++ extra) (segments webhook.webhookPath) 0
      (InsertionMap.get?_empty _)
    rw [h] at hnone
    rw [Option.map_eq_none_iff.mp hnone] at hsome
    exact Bool.false_ne_true hsome
  · intro hproto name
    refine (get?_extractParams (List.Forall₂.length_eq hmatch) hproto [] extra .empty name).trans ?_
    rw [InsertionMap.get?_empty, Option.or_none]

/-! ## When it finds that -/

/-- The row matches, and none of its parameters is `__proto__`. -/
def Suits (requestSegments : List (List Char)) (webhook : WebhookEntity) : Prop :=
  Matches webhook requestSegments ∧ protoParameter ∉ segments webhook.webhookPath

/-- Every row that is taken in but does not suit is beaten by one that does: by one before it
with no fewer static segments, or by one behind it with more. -/
def Condition (rows : List WebhookEntity) (requestSegments : List (List Char)) : Prop :=
  ∀ before webhook after, rows = before ++ webhook :: after → TakenIn requestSegments webhook →
    ¬Suits requestSegments webhook →
      (∃ other ∈ before, Suits requestSegments other ∧
        webhook.staticSegments.length ≤ other.staticSegments.length) ∨
      ∃ other ∈ after, Suits requestSegments other ∧
        webhook.staticSegments.length < other.staticSegments.length

/-- The first best suits if and only if every row that does not suit is beaten. -/
theorem IsFirstBest.suits_iff {rows : List WebhookEntity}
    (h : IsFirstBest requestSegments rows webhook) :
    Suits requestSegments webhook ↔ Condition rows requestSegments := by
  obtain ⟨htaken, before, after, rfl, hbefore, hafter⟩ := h
  constructor
  · intro hsuits first other last hsplit hother hunsuited
    rcases List.append_eq_append_iff.mp hsplit with ⟨mid, rfl, hmid⟩ | ⟨mid, rfl, hmid⟩
    · cases mid with
      | nil => exact absurd ((List.cons.inj hmid).1 ▸ hsuits) hunsuited
      | cons next mid =>
        obtain ⟨rfl, rfl⟩ := List.cons.inj hmid
        exact Or.inl ⟨webhook, List.mem_append_right _ List.mem_cons_self, hsuits,
          hafter other (List.mem_append_right _ List.mem_cons_self) hother⟩
    · cases mid with
      | nil => exact absurd ((List.cons.inj hmid).1 ▸ hsuits) hunsuited
      | cons next mid =>
        obtain ⟨rfl, rfl⟩ := List.cons.inj hmid
        exact Or.inr ⟨webhook, List.mem_append_right _ List.mem_cons_self, hsuits,
          hbefore other (List.mem_append_right _ List.mem_cons_self) hother⟩
  · intro hcondition
    by_contra hunsuited
    rcases hcondition before webhook after rfl htaken hunsuited with
      ⟨other, hmem, hsuits, hle⟩ | ⟨other, hmem, hsuits, hlt⟩
    · exact absurd (hbefore other hmem hsuits.1.takenIn) (not_lt.mpr hle)
    · exact absurd (hafter other hmem hsuits.1.takenIn) (not_le.mpr hlt)

/-- No row is taken in: the condition says nothing. -/
theorem condition_of_not_takenIn {rows : List WebhookEntity}
    (h : ∀ other ∈ rows, ¬TakenIn requestSegments other) : Condition rows requestSegments :=
  fun _ webhook _ hsplit htaken =>
    absurd htaken (h webhook (hsplit ▸ List.mem_append_right _ List.mem_cons_self))

theorem IsFirstBest.mem {rows : List WebhookEntity}
    (h : IsFirstBest requestSegments rows webhook) : webhook ∈ rows := by
  obtain ⟨-, before, after, rfl, -⟩ := h
  exact List.mem_append_right _ List.mem_cons_self

theorem IsFirstBest.le {rows : List WebhookEntity} {other : WebhookEntity}
    (h : IsFirstBest requestSegments rows webhook) (hmem : other ∈ rows)
    (htaken : TakenIn requestSegments other) :
    other.staticSegments.length ≤ webhook.staticSegments.length := by
  have hknows : (⟨some webhook, webhook.staticSegments.length⟩ : Best).Knows requestSegments
    rows := ⟨rfl, h⟩
  exact hknows.le_maxMatches hmem htaken

/-- **The lookup does what it should exactly when every row that is taken in without suiting the
request is beaten by one that suits it.** -/
theorem findsBest_iff (table : WebhookRepository) (path : String) (method : IHttpRequestMethods) :
    FindsBest table path method ↔
      Condition (dynamicWebhooks table (removeTrailingSlash path) method)
        (segments (removeTrailingSlash path)).tail := by
  cases hfound : findDynamicWebhook table (removeTrailingSlash path) method with
  | none =>
    have hnone := not_takenIn_of_findDynamicWebhook hfound
    refine ⟨fun _ => condition_of_not_takenIn hnone, fun _ => ⟨?_, ?_, ?_, ?_⟩⟩
    · exact fun webhook hsome => nomatch hfound.symm.trans hsome
    · exact fun _ other hmem hmatch => hnone other hmem hmatch.takenIn
    · exact fun webhook hsome => nomatch hfound.symm.trans hsome
    · exact fun webhook hsome => nomatch hfound.symm.trans hsome
  | some webhook =>
    have hbest := isFirstBest_of_findDynamicWebhook hfound
    rw [← hbest.suits_iff]
    constructor
    · intro h
      have hmatch := (h.sound webhook hfound).2
      exact ⟨hmatch, (get?_requestParams_iff hmatch).mp (h.params webhook hfound)⟩
    · intro hsuits
      refine ⟨?_, ?_, ?_, ?_⟩
      · intro other hother
        cases hfound.symm.trans hother
        exact ⟨hbest.mem, hsuits.1⟩
      · exact fun hnone => nomatch hfound.symm.trans hnone
      · intro other hother candidate hmem hmatch
        cases hfound.symm.trans hother
        exact hbest.le hmem hmatch.takenIn
      · intro other hother
        cases hfound.symm.trans hother
        exact (get?_requestParams_iff hsuits.1).mpr hsuits.2

/-! ## A request that no webhook matches -/

/-- A webhook for `:id/posts` of the id `u`. -/
def postsWebhook : WebhookEntity where
  workflowId := "1"
  webhookPath := ":id/posts"
  method := .get
  node := "Webhook"
  webhookId := some "u"
  pathLength := some 2

theorem segments_posts : segments "u/posts/7" = [['u'], ['p', 'o', 's', 't', 's'], ['7']] := by
  decide

theorem segments_postsWebhook :
    segments postsWebhook.webhookPath = [[':', 'i', 'd'], ['p', 'o', 's', 't', 's']] := by
  decide

theorem findDynamicWebhook_posts :
    findDynamicWebhook ⟨[postsWebhook], List.nodup_singleton _⟩ "u/posts/7" .get =
      some postsWebhook := by
  have hstatic : postsWebhook.staticSegments = [['p', 'o', 's', 't', 's']] := by
    rw [WebhookEntity.staticSegments, segments_postsWebhook]
    decide
  have hid : postsWebhook.webhookId = some (String.ofList ['u']) := by decide
  have hrows : dynamicWebhooks ⟨[postsWebhook], List.nodup_singleton _⟩ "u/posts/7" .get =
      [postsWebhook] := by
    rw [dynamicWebhooks, segments_posts]
    exact List.filter_cons_of_pos (decide_eq_true ⟨hid, rfl, rfl⟩)
  rw [findDynamicWebhook, hrows, segments_posts, List.foldl_cons, consider, hstatic,
    if_pos (by decide)]
  rfl

/-- The request `u/posts/7` finds the webhook `:id/posts`, which it does not match. -/
theorem not_findsBest_permuted :
    ¬∀ (table : WebhookRepository) (path : String) (method : IHttpRequestMethods),
      FindsBest table path method := by
  intro hclaim
  have hmeets := hclaim ⟨[postsWebhook], List.nodup_singleton _⟩ "u/posts/7" .get
  have hpath : removeTrailingSlash "u/posts/7" = "u/posts/7" := by
    rw [removeTrailingSlash, if_neg (by decide)]
  have hfound := findDynamicWebhook_posts
  rw [← hpath] at hfound
  have hmatch := (hmeets.sound postsWebhook hfound).2
  rw [hpath, Matches, segments_posts, segments_postsWebhook] at hmatch
  have hsecond := (List.forall₂_cons.mp (List.forall₂_cons.mp hmatch).2).1
  exact absurd hsecond (by decide)

end DynamicWebhook

end N8n
