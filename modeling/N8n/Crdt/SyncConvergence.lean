import N8n.Crdt.BaseSyncProvider
import N8n.Foundations.Transition

/-!
# When two documents converge

A provider that is syncing sends what is new to its document, and never again what it had before.
The two documents converge as long as no update is lost on the way: what a syncing provider's
document has, the document of the peer has, or a message on its way to it carries.
-/

namespace N8n.SyncSession

open Transition

variable {Update : Type*} {st st' : SyncSession Update} {side : Side}

/-- A message on its way to a side carries the update. -/
def Carried (st : SyncSession Update) (side : Side) (u : Update) : Prop :=
  ∃ message ∈ st.inFlight side, u ∈ message

/-- What the document of a syncing provider has, that of its peer has or is about to get. -/
def Forwarded (st : SyncSession Update) : Prop :=
  ∀ side, st.syncing side = true → ∀ u ∈ st.doc side,
    u ∈ st.doc side.peer ∨ st.Carried side.peer u

/-- When both providers are syncing, both transports connected and no message is on its way, each
document has all updates that were made. -/
def Converged (st : SyncSession Update) : Prop :=
  (∀ side, st.syncing side = true ∧ st.connected side = true ∧ st.inFlight side = []) →
    ∀ u ∈ st.made, ∀ side, u ∈ st.doc side

/-- The side can do without the messages `lost`: it has what they carry, or gets it from the
`remaining` ones. -/
def Dispensable (st : SyncSession Update) (side : Side)
    (lost remaining : List (Finset Update)) : Prop :=
  ∀ message ∈ lost, ∀ u ∈ message, u ∈ st.doc side ∨ ∃ later ∈ remaining, u ∈ later

/-- The condition on a step: a document is edited while its provider is not syncing or its
transport is connected, and messages of a syncing provider that the peer cannot do without are
neither dropped nor lost with a connection. -/
def Timely (st : SyncSession Update) : Event Update → Prop
  | .edit side _ => st.syncing side = true → st.connected side = true
  | .stop side _ => st.syncing side = true → st.syncing side.peer = true →
      st.Dispensable side (st.inFlight side) []
  | .lost side kept =>
    (st.syncing side.peer = true → st.Dispensable side (st.inFlight side) []) ∧
      (st.syncing side = true →
        st.Dispensable side.peer ((st.inFlight side.peer).drop kept)
          ((st.inFlight side.peer).take kept))
  | .deliver side => st.connected side = false ∨ (st.providers side).receiveHandlers = 0 →
      st.syncing side.peer = true →
        st.Dispensable side ((st.inFlight side).take 1) (st.inFlight side).tail
  | .start _ | .established _ | .startConnected _ | .startFailed _ => True

/-! ### The invariant -/

/-- A syncing provider is subscribed, and messages carry what their sender has. -/
structure Sound (st : SyncSession Update) : Prop where
  forwarded : st.Forwarded
  known : ∀ side, ∀ message ∈ st.inFlight side, message ⊆ st.doc side.peer
  mem_made : ∀ u, u ∈ st.made ↔ ∃ side, u ∈ st.doc side
  subscribed : ∀ side, st.syncing side = true →
    (st.providers side).updateHandlers ≠ 0 ∧ (st.providers side).receiveHandlers ≠ 0

theorem Sound.converged (h : st.Sound) : st.Converged := by
  intro hrest u hu side
  obtain ⟨other, hother⟩ := (h.mem_made u).mp hu
  obtain rfl | rfl := Side.eq_or_eq_peer side other
  · exact hother
  · obtain ⟨hsyncing, -, -⟩ := hrest side.peer
    have hhas := h.forwarded side.peer hsyncing u hother
    rw [Side.peer_peer] at hhas
    refine hhas.resolve_right ?_
    rintro ⟨message, hmessage, -⟩
    rw [(hrest side).2.2] at hmessage
    exact absurd hmessage List.not_mem_nil

section SetInFlight

variable {rest : List (Finset Update)}

@[simp] theorem setInFlight_self : (st.setInFlight side rest).inFlight side = rest := if_pos rfl

theorem setInFlight_of_ne {other : Side} (hne : other ≠ side) :
    (st.setInFlight side rest).inFlight other = st.inFlight other := if_neg hne

@[simp] theorem doc_setInFlight (other : Side) :
    (st.setInFlight side rest).doc other = st.doc other := rfl

/-- A queue changes: nothing that a syncing sender relies on gets lost, and all that is in it the
sender has. -/
theorem Sound.setInFlight (h : st.Sound)
    (hkept : st.syncing side.peer = true → st.Dispensable side (st.inFlight side) rest)
    (hknown : ∀ message ∈ rest, message ⊆ st.doc side.peer) :
    (st.setInFlight side rest).Sound := by
  constructor
  · intro other hsyncing u hu
    refine (h.forwarded other hsyncing u hu).elim Or.inl ?_
    rintro ⟨message, hmessage, hmem⟩
    by_cases heq : other.peer = side
    · subst heq
      rw [Side.peer_peer] at hkept
      refine (hkept hsyncing message hmessage u hmem).imp_right ?_
      rintro ⟨later, hlater, hmem⟩
      exact ⟨later, by rwa [setInFlight_self], hmem⟩
    · exact Or.inr ⟨message, by rwa [setInFlight_of_ne heq], hmem⟩
  · intro other message hmessage
    by_cases heq : other = side
    · subst heq
      rw [setInFlight_self] at hmessage
      exact hknown message hmessage
    · rw [setInFlight_of_ne heq] at hmessage
      exact h.known other message hmessage
  · exact h.mem_made
  · exact h.subscribed

/-- Messages that their sender has are added to a queue. -/
theorem Sound.sendAll {messages : List (Finset Update)} (h : st.Sound)
    (hknown : ∀ message ∈ messages, message ⊆ st.doc side) : (st.sendAll side messages).Sound := by
  refine h.setInFlight ?_ ?_
  · intro _ message hmessage u hu
    exact Or.inr ⟨message, List.mem_append_left _ hmessage, hu⟩
  · intro message hmessage
    obtain hold | hnew := List.mem_append.mp hmessage
    · exact h.known side.peer message hold
    · rw [Side.peer_peer]
      exact hknown message hnew

end SetInFlight

section SetProvider

variable {provider : BaseSyncProvider Update}

@[simp] theorem setProvider_self : (st.setProvider side provider).providers side = provider :=
  if_pos rfl

theorem setProvider_of_ne {other : Side} (hne : other ≠ side) :
    (st.setProvider side provider).providers other = st.providers other := if_neg hne

theorem doc_setProvider_self : (st.setProvider side provider).doc side = provider.doc :=
  congrArg BaseSyncProvider.doc setProvider_self

theorem doc_setProvider_of_ne {other : Side} (hne : other ≠ side) :
    (st.setProvider side provider).doc other = st.doc other :=
  congrArg BaseSyncProvider.doc (setProvider_of_ne hne)

theorem doc_setProvider_of_eq (hdoc : provider.doc = st.doc side) (other : Side) :
    (st.setProvider side provider).doc other = st.doc other := by
  by_cases hne : other = side
  · rw [hne, doc_setProvider_self, hdoc]
  · exact doc_setProvider_of_ne hne

theorem syncing_setProvider_of_eq (hsame : provider.syncing = st.syncing side) (other : Side) :
    (st.setProvider side provider).syncing other = st.syncing other := by
  by_cases hne : other = side
  · rw [hne, syncing, setProvider_self, hsame]
  · rw [syncing, setProvider_of_ne hne, syncing]

theorem Dispensable.setProvider {other : Side} {lost remaining : List (Finset Update)}
    (h : st.Dispensable other lost remaining) (hdoc : provider.doc = st.doc side) :
    (st.setProvider side provider).Dispensable other lost remaining := by
  intro message hmessage u hu
  rw [doc_setProvider_of_eq hdoc]
  exact h message hmessage u hu

/-- A provider changes and keeps its document. If it is syncing now, its document is forwarded. -/
theorem Sound.setProvider (h : st.Sound) (hdoc : provider.doc = st.doc side)
    (hforwarded : provider.syncing = true → ∀ u ∈ st.doc side,
      u ∈ st.doc side.peer ∨ st.Carried side.peer u)
    (hhandlers : provider.syncing = true →
      provider.updateHandlers ≠ 0 ∧ provider.receiveHandlers ≠ 0) :
    (st.setProvider side provider).Sound := by
  have hsame := doc_setProvider_of_eq hdoc
  constructor
  · intro other hother u hu
    rw [hsame] at hu ⊢
    by_cases hne : other = side
    · subst hne
      rw [SyncSession.syncing, setProvider_self] at hother
      exact hforwarded hother u hu
    · rw [SyncSession.syncing, setProvider_of_ne hne] at hother
      exact h.forwarded other hother u hu
  · intro other message hmessage
    rw [hsame]
    exact h.known other message hmessage
  · intro u
    refine (h.mem_made u).trans (exists_congr fun other => ?_)
    rw [hsame]
  · intro other hother
    by_cases hne : other = side
    · subst hne
      rw [SyncSession.syncing, setProvider_self] at hother
      rw [setProvider_self]
      exact hhandlers hother
    · rw [SyncSession.syncing, setProvider_of_ne hne] at hother
      rw [setProvider_of_ne hne]
      exact h.subscribed other hother

end SetProvider

/-! ### The steps -/

theorem Sound.notifyUpdate {update : Finset Update} (h : st.Sound) (hsub : update ⊆ st.doc side) :
    (st.notifyUpdate side update).Sound := by
  rw [SyncSession.notifyUpdate]
  split
  · refine h.sendAll fun message hmessage => ?_
    rwa [List.eq_of_mem_replicate hmessage]
  · exact h

theorem doc_notifyUpdate {update : Finset Update} (other : Side) :
    (st.notifyUpdate side update).doc other = st.doc other := by
  rw [notifyUpdate]
  split <;> rfl

theorem inFlight_notifyUpdate {update : Finset Update} :
    (st.notifyUpdate side update).inFlight side = st.inFlight side := by
  rw [SyncSession.notifyUpdate]
  split
  · exact setInFlight_of_ne (Side.peer_ne side).symm
  · rfl

theorem mem_inFlight_notifyUpdate {update message : Finset Update} :
    message ∈ (st.notifyUpdate side update).inFlight side.peer ↔
      message ∈ st.inFlight side.peer ∨ st.connected side = true ∧
        (st.providers side).updateHandlers ≠ 0 ∧ message = update := by
  rw [SyncSession.notifyUpdate]
  split
  next hconnected =>
    rw [SyncSession.sendAll, setInFlight_self, List.mem_append, List.mem_replicate]
    simp [hconnected]
  next hconnected => simp [hconnected]

theorem providers_notifyUpdate {update : Finset Update} :
    (st.notifyUpdate side update).providers = st.providers := by
  rw [SyncSession.notifyUpdate]
  split <;> rfl

theorem made_notifyUpdate {update : Finset Update} :
    (st.notifyUpdate side update).made = st.made := by
  rw [SyncSession.notifyUpdate]
  split <;> rfl

variable [DecidableEq Update]

/-- A document takes up what its peer has. -/
theorem Sound.grow {update : Finset Update} (h : st.Sound) (hsub : update ⊆ st.doc side.peer) :
    (st.setProvider side { st.providers side with doc := st.doc side ∪ update }).Sound := by
  have hself : (st.setProvider side { st.providers side with
      doc := st.doc side ∪ update }).doc side = st.doc side ∪ update := doc_setProvider_self
  have hpeer : (st.setProvider side { st.providers side with
      doc := st.doc side ∪ update }).doc side.peer = st.doc side.peer :=
    doc_setProvider_of_ne (Side.peer_ne side)
  have hproviders : ∀ other, (st.setProvider side { st.providers side with
      doc := st.doc side ∪ update }).syncing other = st.syncing other :=
    syncing_setProvider_of_eq rfl
  constructor
  · intro other hsyncing u hu
    rw [hproviders] at hsyncing
    obtain rfl | rfl := Side.eq_or_eq_peer side other
    · rw [hself] at hu
      rw [hpeer]
      exact (Finset.mem_union.mp hu).elim (h.forwarded other hsyncing u) fun hnew =>
        Or.inl (hsub hnew)
    · rw [hpeer] at hu
      have hhas := h.forwarded side.peer hsyncing u hu
      rw [Side.peer_peer] at hhas ⊢
      rw [hself]
      exact hhas.imp_left fun hdoc => Finset.mem_union_left _ hdoc
  · intro other message hmessage
    have hknown := h.known other message hmessage
    obtain rfl | rfl := Side.eq_or_eq_peer side other
    · rwa [hpeer]
    · rw [Side.peer_peer] at hknown ⊢
      rw [hself]
      exact hknown.trans Finset.subset_union_left
  · intro u
    refine (h.mem_made u).trans ?_
    constructor
    · rintro ⟨other, hother⟩
      obtain rfl | rfl := Side.eq_or_eq_peer side other
      · exact ⟨other, by rw [hself]; exact Finset.mem_union_left _ hother⟩
      · exact ⟨side.peer, by rwa [hpeer]⟩
    · rintro ⟨other, hother⟩
      obtain rfl | rfl := Side.eq_or_eq_peer side other
      · rw [hself] at hother
        exact (Finset.mem_union.mp hother).elim (fun hold => ⟨other, hold⟩)
          fun hnew => ⟨other.peer, hsub hnew⟩
      · exact ⟨side.peer, by rwa [hpeer] at hother⟩
  · intro other hsyncing
    rw [hproviders] at hsyncing
    by_cases hne : other = side
    · subst hne
      rw [setProvider_self]
      exact h.subscribed other hsyncing
    · rw [setProvider_of_ne hne]
      exact h.subscribed other hsyncing

/-- What is applied is what the peer has; what is sent back, too. -/
theorem Sound.applyUpdate {update : Finset Update} (h : st.Sound)
    (hsub : update ⊆ st.doc side.peer) : (st.applyUpdate side update).Sound := by
  rw [SyncSession.applyUpdate]
  split
  · exact h
  · refine (h.grow hsub).notifyUpdate ?_
    rw [doc_setProvider_self]
    exact Finset.sdiff_subset.trans Finset.subset_union_right

theorem doc_applyUpdate_self {update : Finset Update} :
    (st.applyUpdate side update).doc side = st.doc side ∪ update := by
  rw [applyUpdate]
  split
  next hsub => exact (Finset.union_eq_left.mpr hsub).symm
  next => rw [doc_notifyUpdate, doc_setProvider_self]

theorem doc_applyUpdate_of_ne {update : Finset Update} {other : Side} (hne : other ≠ side) :
    (st.applyUpdate side update).doc other = st.doc other := by
  rw [applyUpdate]
  split
  · rfl
  · rw [doc_notifyUpdate, doc_setProvider_of_ne hne]

/-- Applying an update for a side adds nothing to the messages for it. -/
theorem inFlight_applyUpdate {update : Finset Update} :
    (st.applyUpdate side update).inFlight side = st.inFlight side := by
  rw [applyUpdate]
  split
  · rfl
  · exact inFlight_notifyUpdate

omit [DecidableEq Update] in
theorem setInFlight_comm {other : Side} (hne : other ≠ side)
    {rest messages : List (Finset Update)} :
    (st.setInFlight side rest).setInFlight other messages =
      (st.setInFlight other messages).setInFlight side rest := by
  refine congrArg (SyncSession.mk st.providers · st.made) (funext fun s => ?_)
  by_cases hself : s = side
  · have hother : s ≠ other := fun h => hne (h.symm.trans hself)
    exact (if_neg hother).trans ((if_pos hself).trans (if_pos hself).symm)
  · exact (ite_congr rfl (fun _ => rfl) fun _ => if_neg hself).trans (if_neg hself).symm

omit [DecidableEq Update] in
theorem notifyUpdate_setInFlight {update : Finset Update} {rest : List (Finset Update)} :
    (st.setInFlight side rest).notifyUpdate side update =
      (st.notifyUpdate side update).setInFlight side rest := by
  have hconnected : (st.setInFlight side rest).connected side = st.connected side := rfl
  rw [notifyUpdate, notifyUpdate, hconnected]
  split
  · have hqueue : (st.setInFlight side rest).inFlight side.peer = st.inFlight side.peer :=
      setInFlight_of_ne (Side.peer_ne side)
    rw [sendAll, sendAll, hqueue]
    exact setInFlight_comm (Side.peer_ne side)
  · rfl

/-- A message is taken from the queue before it is applied, which comes to the same. -/
theorem applyUpdate_setInFlight {update : Finset Update} {rest : List (Finset Update)} :
    (st.setInFlight side rest).applyUpdate side update =
      (st.applyUpdate side update).setInFlight side rest := by
  have hdoc : (st.setInFlight side rest).doc side = st.doc side := rfl
  rw [applyUpdate, applyUpdate, hdoc]
  by_cases hsub : update ⊆ st.doc side
  · rw [if_pos hsub, if_pos hsub]
  · rw [if_neg hsub, if_neg hsub]
    have hgrown : ((st.setProvider side { st.providers side with
        doc := st.doc side ∪ update }).setInFlight side rest).notifyUpdate side
          (update \ st.doc side) = _ := notifyUpdate_setInFlight
    exact hgrown

/-- What holds after an update has been applied some times in turn. -/
theorem iterate_applyUpdate_induct {P : SyncSession Update → Prop} {update : Finset Update}
    (hkeep : ∀ st, P st → P (st.applyUpdate side update)) (n : ℕ) (hst : P st) :
    P ((applyUpdate side update)^[n] st) := by
  induction n generalizing st with
  | zero => exact hst
  | succ n ih => exact ih (hkeep st hst)

/-- All handlers apply an update that the peer has. The queue of the side stays as it is. -/
theorem Sound.iterate_applyUpdate {update : Finset Update} (h : st.Sound)
    (hsub : update ⊆ st.doc side.peer) (n : ℕ) :
    ((SyncSession.applyUpdate side update)^[n] st).Sound ∧
      ((SyncSession.applyUpdate side update)^[n] st).inFlight side = st.inFlight side ∧
      ((SyncSession.applyUpdate side update)^[n] st).doc side.peer = st.doc side.peer := by
  refine iterate_applyUpdate_induct (P := fun st' => st'.Sound ∧
    st'.inFlight side = st.inFlight side ∧ st'.doc side.peer = st.doc side.peer) ?_ n
    ⟨h, rfl, rfl⟩
  rintro st' ⟨h', hqueue, hpeer⟩
  refine ⟨h'.applyUpdate (hpeer ▸ hsub), inFlight_applyUpdate.trans hqueue, ?_⟩
  exact (doc_applyUpdate_of_ne (Side.peer_ne side)).trans hpeer

theorem iterate_applyUpdate_setInFlight {update : Finset Update} {rest : List (Finset Update)}
    (n : ℕ) : (applyUpdate side update)^[n] (st.setInFlight side rest) =
      ((applyUpdate side update)^[n] st).setInFlight side rest := by
  induction n generalizing st with
  | zero => rfl
  | succ n ih =>
    have hfirst : (st.setInFlight side rest).applyUpdate side update =
        (st.applyUpdate side update).setInFlight side rest := applyUpdate_setInFlight
    rw [Function.iterate_succ_apply, hfirst, ih, ← Function.iterate_succ_apply]

theorem subset_doc_iterate_applyUpdate {update : Finset Update} {n : ℕ} (hn : n ≠ 0) :
    update ⊆ ((applyUpdate side update)^[n] st).doc side := by
  obtain ⟨k, rfl⟩ := Nat.exists_eq_succ_of_ne_zero hn
  rw [Function.iterate_succ_apply]
  refine iterate_applyUpdate_induct (P := fun st' => update ⊆ st'.doc side) ?_ k ?_
  · intro st' hst'
    rw [doc_applyUpdate_self]
    exact Finset.subset_union_right
  · rw [doc_applyUpdate_self]
    exact Finset.subset_union_right

theorem Sound.deliver {update : Finset Update} {rest : List (Finset Update)} (h : st.Sound)
    (hqueue : st.inFlight side = update :: rest) (htimely : st.Timely (.deliver side)) :
    (st.deliver side update rest).Sound := by
  have hknown := h.known side
  rw [hqueue] at hknown
  have hsub := hknown update List.mem_cons_self
  have hrest : ∀ message ∈ rest, message ⊆ st.doc side.peer := fun message hmessage =>
    hknown message (List.mem_cons_of_mem _ hmessage)
  -- a message that goes missing is one that the side can do without
  have hdropped : st.connected side = false ∨ (st.providers side).receiveHandlers = 0 →
      (st.setInFlight side rest).Sound := by
    intro hdrop
    refine h.setInFlight (fun hsyncing => ?_) hrest
    have hwithout := htimely hdrop hsyncing
    rw [hqueue] at hwithout ⊢
    intro message hmessage u hu
    obtain rfl | hmessage := List.mem_cons.mp hmessage
    · exact hwithout _ (List.mem_singleton_self _) u hu
    · exact Or.inr ⟨message, hmessage, hu⟩
  rw [SyncSession.deliver]
  by_cases hconnected : st.connected side = true
  · rw [if_pos hconnected]
    by_cases hn : (st.providers side).receiveHandlers = 0
    · rw [hn]
      exact hdropped (Or.inr hn)
    · obtain ⟨happlied, hsame, hpeer⟩ :=
        h.iterate_applyUpdate hsub (st.providers side).receiveHandlers
      rw [iterate_applyUpdate_setInFlight]
      refine happlied.setInFlight (fun _ => ?_) (hpeer.symm ▸ hrest)
      rw [hsame, hqueue]
      intro message hmessage u hu
      obtain rfl | hmessage := List.mem_cons.mp hmessage
      · exact Or.inl (subset_doc_iterate_applyUpdate hn hu)
      · exact Or.inr ⟨message, hmessage, hu⟩
  · rw [if_neg hconnected]
    exact hdropped (Or.inl (Bool.eq_false_iff.mpr hconnected))

omit [DecidableEq Update] in
/-- The connection of a side ends while neither the side nor its peer relies on what is lost. -/
theorem Sound.dropMessages {kept : ℕ} (h : st.Sound)
    (hto : st.syncing side.peer = true → st.Dispensable side (st.inFlight side) [])
    (hfrom : st.syncing side = true →
      st.Dispensable side.peer ((st.inFlight side.peer).drop kept)
        ((st.inFlight side.peer).take kept)) : (st.dropMessages side kept).Sound := by
  have hcleared : (st.setInFlight side []).Sound :=
    h.setInFlight hto fun message hmessage => absurd hmessage List.not_mem_nil
  refine hcleared.setInFlight ?_ ?_
  · rw [Side.peer_peer, setInFlight_of_ne (Side.peer_ne side)]
    intro hsyncing message hmessage u hu
    rw [← List.take_append_drop kept (st.inFlight side.peer)] at hmessage
    obtain hkept | hlost := List.mem_append.mp hmessage
    · exact Or.inr ⟨message, hkept, hu⟩
    · exact hfrom hsyncing message hlost u hu
  · intro message hmessage
    exact h.known side.peer message (List.mem_of_mem_take hmessage)

/-- A document gets a new update, and its provider sends it if it is syncing. -/
theorem Sound.edit {u : Update} (h : st.Sound) (htimely : st.Timely (.edit side u)) :
    (st.edit side u).Sound := by
  have hproviders : (st.edit side u).providers = (st.setProvider side { st.providers side with
      doc := insert u (st.doc side) }).providers := providers_notifyUpdate
  have hdoc : ∀ other, (st.edit side u).doc other = (st.setProvider side { st.providers side with
      doc := insert u (st.doc side) }).doc other := fun other =>
    congrArg (fun providers => (providers other).doc) hproviders
  have hself : (st.edit side u).doc side = insert u (st.doc side) :=
    (hdoc side).trans doc_setProvider_self
  have hpeer : (st.edit side u).doc side.peer = st.doc side.peer :=
    (hdoc side.peer).trans (doc_setProvider_of_ne (Side.peer_ne side))
  have hsyncing : ∀ other, (st.edit side u).syncing other = st.syncing other := by
    have hsame : ∀ other, (st.setProvider side { st.providers side with
        doc := insert u (st.doc side) }).syncing other = st.syncing other :=
      syncing_setProvider_of_eq rfl
    intro other
    rw [syncing, hproviders]
    exact hsame other
  have hmade : (st.edit side u).made = insert u st.made := made_notifyUpdate
  have hqueue : (st.edit side u).inFlight side = st.inFlight side := inFlight_notifyUpdate
  have hsent : ∀ message, message ∈ (st.edit side u).inFlight side.peer ↔
      message ∈ st.inFlight side.peer ∨ st.connected side = true ∧
        (st.providers side).updateHandlers ≠ 0 ∧ message = {u} := fun message => by
    refine mem_inFlight_notifyUpdate.trans (or_congr Iff.rfl ?_)
    rw [connected, setProvider_self]
    rfl
  constructor
  · intro other hother v hv
    rw [hsyncing] at hother
    obtain rfl | rfl := Side.eq_or_eq_peer side other
    · rw [hself] at hv
      rw [hpeer]
      obtain rfl | hv := Finset.mem_insert.mp hv
      · have hnew : {v} ∈ (st.edit other v).inFlight other.peer :=
          (hsent {v}).mpr (Or.inr ⟨htimely hother, (h.subscribed other hother).1, rfl⟩)
        exact Or.inr ⟨{v}, hnew, Finset.mem_singleton_self v⟩
      · refine (h.forwarded other hother v hv).imp_right ?_
        rintro ⟨message, hmessage, hmem⟩
        exact ⟨message, (hsent message).mpr (Or.inl hmessage), hmem⟩
    · rw [hpeer] at hv
      have hhas := h.forwarded side.peer hother v hv
      rw [Side.peer_peer] at hhas ⊢
      rw [hself]
      refine hhas.imp (fun hmem => Finset.mem_insert_of_mem hmem) ?_
      rintro ⟨message, hmessage, hmem⟩
      exact ⟨message, hqueue ▸ hmessage, hmem⟩
  · intro other message hmessage
    obtain rfl | rfl := Side.eq_or_eq_peer side other
    · rw [hqueue] at hmessage
      rw [hpeer]
      exact h.known other message hmessage
    · rw [Side.peer_peer, hself]
      obtain hold | ⟨-, -, rfl⟩ := (hsent message).mp hmessage
      · have hknown := h.known side.peer message hold
        rw [Side.peer_peer] at hknown
        exact hknown.trans (Finset.subset_insert u _)
      · exact Finset.singleton_subset_iff.mpr (Finset.mem_insert_self u _)
  · intro v
    rw [hmade, Finset.mem_insert, h.mem_made]
    constructor
    · rintro (rfl | ⟨other, hother⟩)
      · exact ⟨side, hself ▸ Finset.mem_insert_self v _⟩
      · obtain rfl | rfl := Side.eq_or_eq_peer side other
        · exact ⟨other, hself ▸ Finset.mem_insert_of_mem hother⟩
        · exact ⟨side.peer, hpeer ▸ hother⟩
    · rintro ⟨other, hother⟩
      obtain rfl | rfl := Side.eq_or_eq_peer side other
      · rw [hself, Finset.mem_insert] at hother
        exact hother.imp_right fun hmem => ⟨other, hmem⟩
      · exact Or.inr ⟨side.peer, hpeer ▸ hother⟩
  · intro other hother
    rw [hsyncing] at hother
    rw [hproviders]
    by_cases hne : other = side
    · subst hne
      rw [setProvider_self]
      exact h.subscribed other hother
    · rw [setProvider_of_ne hne]
      exact h.subscribed other hother

omit [DecidableEq Update] in
/-- A provider begins to sync with the state of its document on the way. -/
theorem Sound.startConnected (h : st.Sound) : (st.startConnected side).Sound := by
  have hhandlers : ∀ n : ℕ, n + 1 ≠ 0 := Nat.succ_ne_zero
  rw [SyncSession.startConnected]
  split
  · have hsent : (st.sendAll side [st.doc side]).Sound :=
      h.sendAll fun message hmessage => (List.mem_singleton.mp hmessage).subset
    refine hsent.setProvider rfl (fun _ u hu => Or.inr ⟨st.doc side, ?_, hu⟩)
      fun _ => ⟨hhandlers _, hhandlers _⟩
    rw [SyncSession.sendAll, setInFlight_self]
    exact List.mem_append_right _ (List.mem_singleton_self _)
  · exact h.setProvider rfl (h.forwarded side) fun _ => ⟨hhandlers _, hhandlers _⟩

omit [DecidableEq Update] in
theorem Sound.stop {kept : ℕ} (h : st.Sound) (htimely : st.Timely (.stop side kept)) :
    (st.stop side kept).Sound := by
  rw [SyncSession.stop]
  split
  next hsyncing =>
    have hstopped : (st.setProvider side { st.providers side with
        syncing := false
        receiveHandlers := (st.providers side).receiveHandlers - 1
        updateHandlers := (st.providers side).updateHandlers - 1
        connected := false
        shouldReconnect := false }).Sound :=
      h.setProvider rfl (fun hfalse => absurd hfalse Bool.false_ne_true)
        fun hfalse => absurd hfalse Bool.false_ne_true
    refine hstopped.dropMessages ?_ ?_
    · intro hpeer
      rw [syncing, setProvider_of_ne (Side.peer_ne side)] at hpeer
      exact (htimely hsyncing hpeer).setProvider rfl
    · intro hself
      rw [syncing, setProvider_self] at hself
      exact absurd hself Bool.false_ne_true
  next => exact h

omit [DecidableEq Update] in
theorem Sound.lost {kept : ℕ} (h : st.Sound) (htimely : st.Timely (.lost side kept)) :
    ((st.setProvider side { st.providers side with connected := false }).dropMessages
      side kept).Sound := by
  have hclosed : (st.setProvider side { st.providers side with connected := false }).Sound :=
    h.setProvider rfl (h.forwarded side) (h.subscribed side)
  have hsyncing : ∀ other, (st.setProvider side { st.providers side with
      connected := false }).syncing other = st.syncing other := syncing_setProvider_of_eq rfl
  obtain ⟨hto, hfrom⟩ := htimely
  refine hclosed.dropMessages ?_ ?_
  · intro hpeer
    exact (hto ((hsyncing side.peer).symm.trans hpeer)).setProvider rfl
  · intro hself
    exact (hfrom ((hsyncing side).symm.trans hself)).setProvider rfl

/-- **Step lemma**: a timely step keeps the invariant. -/
theorem Sound.step {event : Event Update} (h : st.Sound) (htimely : st.Timely event)
    (hstep : Step st event st') : st'.Sound := by
  cases event with
  | edit side u =>
    obtain ⟨-, heq⟩ := Option.ite_none_left_eq_some.mp hstep
    obtain rfl := Option.some.inj heq
    exact h.edit htimely
  | start side =>
    obtain rfl := Option.some.inj hstep
    rw [SyncSession.start]
    split
    · exact h
    · exact h.setProvider rfl (h.forwarded side) (h.subscribed side)
  | established side =>
    obtain ⟨-, heq⟩ := Option.ite_none_right_eq_some.mp hstep
    obtain rfl := Option.some.inj heq
    exact h.setProvider rfl (h.forwarded side) (h.subscribed side)
  | startConnected side =>
    obtain ⟨-, heq⟩ := Option.ite_none_left_eq_some.mp hstep
    obtain rfl := Option.some.inj heq
    exact h.startConnected
  | startFailed side =>
    obtain ⟨-, heq⟩ := Option.ite_none_left_eq_some.mp hstep
    obtain rfl := Option.some.inj heq
    exact h.setProvider rfl (h.forwarded side) (h.subscribed side)
  | stop side kept =>
    obtain rfl := Option.some.inj hstep
    exact h.stop htimely
  | lost side kept =>
    obtain ⟨-, heq⟩ := Option.ite_none_right_eq_some.mp hstep
    obtain rfl := Option.some.inj heq
    exact h.lost htimely
  | deliver side =>
    rw [Step, step?] at hstep
    split at hstep
    · cases hstep
    next hqueue =>
      obtain rfl := Option.some.inj hstep
      exact h.deliver hqueue htimely

theorem sound_init (docs : Side → Finset Update) : (init docs).Sound where
  forwarded := fun _ hsyncing => absurd hsyncing Bool.false_ne_true
  known := fun _ _ hmessage => absurd hmessage List.not_mem_nil
  mem_made := fun u => by
    refine Finset.mem_union.trans ⟨?_, ?_⟩
    · rintro (h | h)
      · exact ⟨.first, h⟩
      · exact ⟨.second, h⟩
    · rintro ⟨side, h⟩
      cases side with
      | first => exact Or.inl h
      | second => exact Or.inr h
  subscribed := fun _ hsyncing => absurd hsyncing Bool.false_ne_true

omit [DecidableEq Update] in
theorem inFlight_dropMessages {kept : ℕ} : (st.dropMessages side kept).inFlight side = [] := by
  rw [SyncSession.dropMessages, setInFlight_of_ne (Side.peer_ne side).symm, setInFlight_self]

omit [DecidableEq Update] in
theorem inFlight_dropMessages_peer {kept : ℕ} :
    (st.dropMessages side kept).inFlight side.peer = (st.inFlight side.peer).take kept := by
  rw [SyncSession.dropMessages, setInFlight_self]

omit [DecidableEq Update] in
theorem exists_of_not_dispensable {lost remaining : List (Finset Update)}
    (h : ¬st.Dispensable side lost remaining) : ∃ message ∈ lost, ∃ u ∈ message,
      u ∉ st.doc side ∧ ∀ later ∈ remaining, u ∉ later := by
  simp only [Dispensable, not_forall, not_or, not_exists, not_and] at h
  obtain ⟨message, hmessage, u, hu, hdoc, hlater⟩ := h
  exact ⟨message, hmessage, u, hu, hdoc, hlater⟩

omit [DecidableEq Update] in
/-- What a side cannot do without is lost, and the sender goes on syncing. -/
theorem not_forwarded_of_lost {message : Finset Update} {u : Update} (h : st.Sound)
    (hmessage : message ∈ st.inFlight side) (hu : u ∈ message) (hdoc : u ∉ st.doc side)
    (hrest : ∀ later ∈ st'.inFlight side, u ∉ later)
    (hsame : ∀ other, st'.doc other = st.doc other)
    (hsyncing : st'.syncing side.peer = true) : ¬st'.Forwarded := by
  intro hforwarded
  have hsender : u ∈ st'.doc side.peer := (hsame _).symm ▸ h.known side message hmessage hu
  have hhas := hforwarded side.peer hsyncing u hsender
  rw [Side.peer_peer, hsame] at hhas
  obtain ⟨later, hlater, hmem⟩ := hhas.resolve_left hdoc
  exact hrest later hlater hmem

/-- A step that is not timely loses an update for good. -/
theorem Sound.not_forwarded_of_not_timely {event : Event Update} (h : st.Sound)
    (htimely : ¬st.Timely event) (hstep : Step st event st') : ¬st'.Forwarded := by
  cases event with
  | edit side u =>
    obtain ⟨hnew, heq⟩ := Option.ite_none_left_eq_some.mp hstep
    obtain rfl := Option.some.inj heq
    obtain ⟨hsyncing, hconnected⟩ := Classical.not_imp.mp htimely
    have hunsent : st.edit side u = { st.setProvider side { st.providers side with
        doc := insert u (st.doc side) } with made := insert u st.made } := by
      have hsame : (st.setProvider side { st.providers side with
          doc := insert u (st.doc side) }).connected side = st.connected side := by
        rw [connected, setProvider_self]
        rfl
      rw [SyncSession.edit, SyncSession.notifyUpdate]
      exact if_neg (hsame ▸ hconnected)
    rw [hunsent]
    have hnotMem : ∀ other, u ∉ st.doc other := fun other hmem =>
      hnew ((h.mem_made u).mpr ⟨other, hmem⟩)
    intro hforwarded
    have hself : (st.setProvider side { st.providers side with
        doc := insert u (st.doc side) }).doc side = insert u (st.doc side) := doc_setProvider_self
    have hpeer : (st.setProvider side { st.providers side with
        doc := insert u (st.doc side) }).doc side.peer = st.doc side.peer :=
      doc_setProvider_of_ne (Side.peer_ne side)
    have hstill : (st.setProvider side { st.providers side with
        doc := insert u (st.doc side) }).syncing side = true := by
      rw [syncing, setProvider_self]
      exact hsyncing
    obtain hdoc | ⟨message, hmessage, hmem⟩ :=
      hforwarded side hstill u (hself.symm ▸ Finset.mem_insert_self u _)
    · exact hnotMem side.peer (hpeer ▸ hdoc)
    · exact hnotMem side.peer.peer (h.known side.peer message hmessage hmem)
  | stop side kept =>
    obtain rfl := Option.some.inj hstep
    obtain ⟨hsyncing, hneed⟩ := Classical.not_imp.mp htimely
    obtain ⟨hpeer, hneed⟩ := Classical.not_imp.mp hneed
    obtain ⟨message, hmessage, u, hu, hdoc, -⟩ := exists_of_not_dispensable hneed
    have hactive : (st.providers side).syncing = true := hsyncing
    rw [SyncSession.stop, if_pos hactive]
    refine not_forwarded_of_lost h hmessage hu hdoc ?_ (doc_setProvider_of_eq rfl) ?_
    · rw [inFlight_dropMessages]
      exact fun _ hlater => absurd hlater List.not_mem_nil
    · exact (congrArg BaseSyncProvider.syncing (setProvider_of_ne (Side.peer_ne side))).trans hpeer
  | lost side kept =>
    obtain ⟨-, heq⟩ := Option.ite_none_right_eq_some.mp hstep
    obtain rfl := Option.some.inj heq
    have hsame : ∀ other, (st.setProvider side { st.providers side with
        connected := false }).syncing other = st.syncing other := syncing_setProvider_of_eq rfl
    obtain hneed | hneed := Classical.not_and_iff_not_or_not.mp htimely
    · obtain ⟨hpeer, hneed⟩ := Classical.not_imp.mp hneed
      obtain ⟨message, hmessage, u, hu, hdoc, -⟩ := exists_of_not_dispensable hneed
      refine not_forwarded_of_lost h hmessage hu hdoc ?_ (doc_setProvider_of_eq rfl)
        ((hsame side.peer).trans hpeer)
      rw [inFlight_dropMessages]
      exact fun _ hlater => absurd hlater List.not_mem_nil
    · obtain ⟨hsyncing, hneed⟩ := Classical.not_imp.mp hneed
      obtain ⟨message, hmessage, u, hu, hdoc, hlater⟩ := exists_of_not_dispensable hneed
      refine not_forwarded_of_lost h (List.mem_of_mem_drop hmessage) hu hdoc ?_
        (doc_setProvider_of_eq rfl) ?_
      · rw [inFlight_dropMessages_peer]
        exact hlater
      · rw [Side.peer_peer]
        exact (hsame side).trans hsyncing
  | deliver side =>
    obtain ⟨hdrop, hneed⟩ := Classical.not_imp.mp htimely
    obtain ⟨hpeer, hneed⟩ := Classical.not_imp.mp hneed
    obtain ⟨message, hmessage, u, hu, hdoc, hlater⟩ := exists_of_not_dispensable hneed
    rw [Step, step?] at hstep
    split at hstep
    · cases hstep
    next update rest hqueue =>
      obtain rfl := Option.some.inj hstep
      have hdropped : st.deliver side update rest = st.setInFlight side rest := by
        rw [SyncSession.deliver]
        split
        next hconnected =>
          have hnone := hdrop.resolve_left fun hfalse => absurd (hconnected.symm.trans hfalse) nofun
          rw [hnone]
          rfl
        next => rfl
      rw [hqueue] at hlater
      rw [hdropped]
      refine not_forwarded_of_lost h (List.mem_of_mem_take hmessage) hu hdoc ?_ (fun _ => rfl) hpeer
      rw [setInFlight_self]
      exact hlater
  | start | established | startConnected | startFailed => exact absurd trivial htimely

/-- **Two documents converge**: nothing that a syncing provider's document has is lost on the way to
the other if and only if all steps are timely, and then the documents are equal whenever both
providers are syncing, both transports are connected and no message is on its way. -/
theorem visits_converged {docs : Side → Finset Update} (run : Run Step (init docs) st) :
    (run.Visits Forwarded ↔ run.Takes Timely) ∧ (run.Takes Timely → run.Visits Converged) := by
  have hkeep : ∀ (st : SyncSession Update) event st', st.Sound → st.Timely event →
      Step st event st' → st'.Sound := fun _ _ _ h htimely hstep => h.step htimely hstep
  constructor
  · exact Run.visits_iff_takes (fun _ h => h.forwarded) hkeep
      (fun _ _ _ h htimely hstep => h.not_forwarded_of_not_timely htimely hstep)
      (sound_init docs) run
  · intro htimely
    have hsound := Run.visits_of_takes hkeep (sound_init docs) run htimely
    exact hsound.mono fun _ h => h.converged

/-- An edit while the connection is lost is not sent when it is established again. -/
theorem not_converged_editWhileDisconnected :
    ∃ (docs : Side → Finset ℕ) (st : SyncSession ℕ) (run : Run Step (init docs) st),
      ¬run.Visits Converged := by
  let docs : Side → Finset ℕ := fun _ => ∅
  let events : List (Event ℕ) := [.start .first, .start .second, .established .first,
    .established .second, .startConnected .first, .startConnected .second, .deliver .second,
    .deliver .first, .lost .first 0, .edit .first 7, .established .first]
  have hstate : (events.foldlM step? (init docs)).any (fun st =>
      (st.syncing .first ∧ st.connected .first ∧ st.inFlight .first = []) ∧
      (st.syncing .second ∧ st.connected .second ∧ st.inFlight .second = []) ∧
      7 ∈ st.made ∧ 7 ∉ st.doc .second) = true := by decide
  obtain ⟨st, hst, hdata⟩ := (Option.any_eq_true _ _).mp hstate
  obtain ⟨hfirst, hsecond, hmade, hmissing⟩ := of_decide_eq_true hdata
  obtain ⟨run, -⟩ := Run.exists_labels_eq hst
  refine ⟨docs, st, run, fun h => hmissing (h.last ?_ 7 hmade .second)⟩
  intro side
  cases side with
  | first => exact hfirst
  | second => exact hsecond

end N8n.SyncSession
