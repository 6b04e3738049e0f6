import N8n.Foundations.TextCodec

/-!
# Document ids in front of messages

The worker sends the messages of several documents over one connection, so the id of the document
stands in front of the payload, behind a length of two bytes.

`encodeWithDocId` writes the length without a check. An id of more than 65535 bytes gets the last
two bytes of its length, and what does not fit becomes a part of the payload. `TextEncoder` and
`TextDecoder` do not bring every id back either. All other ids come back (`framesId_iff`).
-/

namespace N8n.Protocol

open TextCodec

/-! ### Messages -/

inductive ProtocolError where
  | emptyMessage
  | tooShortForDocId
  | tooShortForDeclaredLength
  deriving DecidableEq, Repr

/-- The text of an error. -/
def ProtocolError.message : ProtocolError → String
  | .emptyMessage => "Empty message"
  | .tooShortForDocId => "Message too short to contain docId"
  | .tooShortForDeclaredLength => "Message too short for declared docId length"

structure Message where
  messageType : UInt8
  payload : List UInt8
  deriving DecidableEq, Repr

structure RoutedMessage extends Message where
  docId : List UInt16
  deriving DecidableEq, Repr

def encodeMessage (messageType : UInt8) (payload : List UInt8) : List UInt8 :=
  messageType :: payload

def decodeMessage : List UInt8 → Except ProtocolError Message
  | [] => .error .emptyMessage
  | messageType :: payload => .ok { messageType, payload }

/-- `[type: 1][docIdLen: 2][docId: N][payload: M]`. -/
def encodeWithDocId (messageType : UInt8) (docId : List UInt16) (payload : List UInt8) :
    List UInt8 :=
  let docIdBytes := encode docId
  let docIdLen := docIdBytes.length
  messageType :: UInt8.ofNat ((docIdLen >>> 8) &&& 0xff) :: UInt8.ofNat (docIdLen &&& 0xff) ::
    (docIdBytes ++ payload)

def decodeWithDocId : List UInt8 → Except ProtocolError RoutedMessage
  | messageType :: high :: low :: data =>
    let docIdLen := (high.toNat <<< 8) ||| low.toNat
    if data.length < docIdLen then .error .tooShortForDeclaredLength
    else
      let docId := decode (data.take docIdLen)
      .ok { messageType, docId, payload := data.drop docIdLen }
  | _ => .error .tooShortForDocId

/-- From a message of the server to one of the worker. -/
def addDocId (docId : List UInt16) (data : List UInt8) : Except ProtocolError (List UInt8) := do
  let { messageType, payload } ← decodeMessage data
  return encodeWithDocId messageType docId payload

/-- From a message of the worker to one of the server. -/
def stripDocId (data : List UInt8) : Except ProtocolError (List UInt8) := do
  let { messageType, payload, .. } ← decodeWithDocId data
  return encodeMessage messageType payload

/-! ### The length -/

theorem addDocId_encodeMessage (docId : List UInt16) (messageType : UInt8)
    (payload : List UInt8) :
    addDocId docId (encodeMessage messageType payload) =
      .ok (encodeWithDocId messageType docId payload) := rfl

/-- The two bytes of the length give its remainder. -/
theorem declared_length (n : ℕ) :
    ((UInt8.ofNat ((n >>> 8) &&& 0xff)).toNat <<< 8) ||| (UInt8.ofNat (n &&& 0xff)).toNat =
      n % 0x10000 := by
  have hmask (m : ℕ) : m &&& 0xff = m % 256 := Nat.and_two_pow_sub_one_eq_mod m 8
  have hlow : n % 256 < 2 ^ 8 := Nat.mod_lt _ (by decide)
  rw [hmask, hmask, toNat_uInt8_ofNat (Nat.mod_lt _ (by decide)),
    toNat_uInt8_ofNat (Nat.mod_lt _ (by decide)), ← Nat.shiftLeft_add_eq_or_of_lt hlow,
    Nat.shiftLeft_eq, Nat.shiftRight_eq_div_pow]
  omega

/-- What is read back: the id as far as the length that was written goes. -/
theorem decodeWithDocId_encodeWithDocId (messageType : UInt8) (docId : List UInt16)
    (payload : List UInt8) :
    decodeWithDocId (encodeWithDocId messageType docId payload) = .ok
      { messageType
        docId := decode ((encode docId ++ payload).take ((encode docId).length % 0x10000))
        payload := (encode docId ++ payload).drop ((encode docId).length % 0x10000) } := by
  have hle : (encode docId).length % 0x10000 ≤ (encode docId ++ payload).length := by
    rw [List.length_append]
    have hmod := Nat.mod_le (encode docId).length 0x10000
    omega
  simp only [encodeWithDocId, decodeWithDocId, declared_length, if_neg (Nat.not_lt.mpr hle)]

theorem decodeWithDocId_of_length_lt {docId : List UInt16}
    (hlength : (encode docId).length < 0x10000) (messageType : UInt8) (payload : List UInt8) :
    decodeWithDocId (encodeWithDocId messageType docId payload) =
      .ok { messageType, docId := decode (encode docId), payload } := by
  rw [decodeWithDocId_encodeWithDocId, Nat.mod_eq_of_lt hlength, List.take_left, List.drop_left]

/-- Whether the id comes back or not, the message does. -/
theorem stripDocId_encodeWithDocId {docId : List UInt16}
    (hlength : (encode docId).length < 0x10000) (messageType : UInt8) (payload : List UInt8) :
    stripDocId (encodeWithDocId messageType docId payload) =
      .ok (encodeMessage messageType payload) := by
  rw [stripDocId, decodeWithDocId_of_length_lt hlength]
  rfl

/-- **Whatever the id, a message comes back.** From the worker to the server and back, the bytes
of a message are the same, also where the id is not. -/
theorem addDocId_bind_stripDocId {docId : List UInt16} (hlength : (encode docId).length < 0x10000)
    {data : List UInt8} (hdata : data ≠ []) : (addDocId docId data).bind stripDocId = .ok data := by
  obtain ⟨messageType, payload, rfl⟩ := List.exists_cons_of_ne_nil hdata
  exact stripDocId_encodeWithDocId hlength messageType payload

/-- The id is half of a surrogate pair. -/
theorem addDocId_bind_stripDocId_surrogate :
    (addDocId [0xD800] [0, 1, 2]).bind stripDocId = .ok [0, 1, 2] :=
  addDocId_bind_stripDocId (by decide +kernel) (by decide)

/-! ### Ids that come back -/

/-- An id whose length fits its two bytes comes back with the message, and a longer one is
rejected. -/
structure FramesId (docId : List UInt16) (messageType : UInt8) (payload : List UInt8) : Prop where
  returned : (encode docId).length < 0x10000 →
    (addDocId docId (encodeMessage messageType payload)).bind decodeWithDocId =
      .ok { messageType, docId, payload }
  rejected : 0x10000 ≤ (encode docId).length →
    ∃ e, addDocId docId (encodeMessage messageType payload) = .error e

/-- **When an id comes back**: its length fits, no surrogate lacks its partner, and it does not
begin with a byte order mark. -/
theorem framesId_iff (docId : List UInt16) (messageType : UInt8) (payload : List UInt8) :
    FramesId docId messageType payload ↔
      (encode docId).length < 0x10000 ∧ IsWellFormed docId ∧ docId.head? ≠ some 0xFEFF := by
  have hread (hlength : (encode docId).length < 0x10000) :
      (addDocId docId (encodeMessage messageType payload)).bind decodeWithDocId =
        .ok { messageType, docId := decode (encode docId), payload } := by
    rw [addDocId_encodeMessage]
    exact decodeWithDocId_of_length_lt hlength messageType payload
  constructor
  · intro h
    have hlength : (encode docId).length < 0x10000 := by
      by_contra hlong
      obtain ⟨e, he⟩ := h.rejected (Nat.not_lt.mp hlong)
      exact nomatch he
    have hreturned := h.returned hlength
    rw [hread hlength, Except.ok.injEq, RoutedMessage.mk.injEq] at hreturned
    exact ⟨hlength, (decode_encode_eq_iff docId).mp hreturned.2⟩
  · rintro ⟨hlength, hid⟩
    refine ⟨fun _ => ?_, fun hlong => absurd hlength (Nat.not_lt.mpr hlong)⟩
    rw [hread hlength, (decode_encode_eq_iff docId).mpr hid]

/-! ### An id that is too long -/

theorem encode_replicate (n : ℕ) : encode (List.replicate n 0x61) = List.replicate n 0x61 := by
  induction n with
  | zero => rfl
  | succ n ih =>
    rw [List.replicate_succ, encode, scalars_cons (by decide), List.flatMap_cons,
      List.replicate_succ]
    exact congrArg (0x61 :: ·) ih

theorem length_encode_replicate (n : ℕ) : (encode (List.replicate n 0x61)).length = n := by
  rw [encode_replicate, List.length_replicate]

/-- Of an id of 65536 letters nothing is read back as the id. -/
theorem not_framesId_long : ¬ FramesId (List.replicate 0x10000 0x61) 0 [] := by
  intro h
  obtain ⟨e, he⟩ := h.rejected (Nat.le_of_eq (length_encode_replicate 0x10000).symm)
  exact nomatch he

example : (addDocId [0x64, 0xE9] [0, 1, 2]).bind decodeWithDocId =
    .ok { messageType := 0, docId := [0x64, 0xE9], payload := [1, 2] } := by decide +kernel

end N8n.Protocol
