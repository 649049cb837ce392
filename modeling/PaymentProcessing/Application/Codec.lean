import PaymentProcessing.Application.Records

/-!
# The event envelope (`application/outbox/codec.py`)

The body of a message is the JSON document it encodes: `json.loads` undoes `json.dumps`. Its headers
are a field table, whose values need not be texts.
-/

namespace PaymentProcessing

open Python

/-- `EVENT_VERSION`. -/
def eventVersion : Int := 1

/-- `OUTBOX_ID_HEADER`. -/
def outboxIdHeader : String := "x-outbox-id"

/-- `EVENT_TYPE_HEADER`. -/
def eventTypeHeader : String := "x-event-type"

/-- Message headers. -/
abbrev Headers := List (String × Value)

namespace OutboxEventCodec

/-- The envelope of a record. -/
def envelope (record : OutboxRecord) : List (String × Json) :=
  [("outbox_id", .str record.id.str), ("event_type", .str record.eventType),
    ("event_version", .int eventVersion), ("payload", record.payload.toJson)]

/-- `OutboxEventCodec.encode`. -/
def encode (py : Platform) (record : OutboxRecord) :
    Except Exc (List (String × Json) × Headers) :=
  if py.serializable (.obj (envelope record)) then
    .ok (envelope record,
      [(outboxIdHeader, .str record.id.str), (eventTypeHeader, .str record.eventType)])
  else .error (.typeError "Object is not JSON serializable")

/-- `_to_text`. -/
def toText (py : Platform) : Option Value → Option String
  | none | some .null => none
  | some raw =>
    let text := match raw with
      | .bytes data => strip (decodeReplace data)
      | .str s => strip s
      | raw => strip (py.render raw)
    if text = "" then none else some text

/-- `extract_payment_id`. -/
def extractPaymentId (py : Platform) (body : List (String × Json)) : Option String :=
  match lookup "payload" body with
  | some (.obj payload) =>
    match lookup "payment_id" payload with
    | none | some .null => toText py ((lookup "payment_id" body).map Json.toValue)
    | some raw => toText py (some raw.toValue)
  | _ => toText py ((lookup "payment_id" body).map Json.toValue)

/-- `extract_outbox_id`. -/
def extractOutboxId (py : Platform) (body : List (String × Json)) (headers : Option Headers) :
    Option UUID :=
  let raw := match lookup "outbox_id" body, headers with
    | none, some h | some .null, some h => lookup outboxIdHeader h
    | raw, _ => raw.map Json.toValue
  match toText py raw with
  | none => none
  | some text => UUID.ofText text

theorem toText_str (py : Platform) (u : UUID) : toText py (some (.str u.str)) = some u.str := by
  simp [toText, UUID.strip_str, UUID.str_ne_empty]

theorem toText_json (py : Platform) (u : UUID) :
    toText py ((some (.str u.str)).map Json.toValue) = some u.str := toText_str py u

/-- **The outbox id survives the envelope**, whatever headers the message carries. -/
theorem extractOutboxId_envelope (py : Platform) (record : OutboxRecord)
    (headers : Option Headers) :
    extractOutboxId py (envelope record) headers = some record.id := by
  have hl : lookup "outbox_id" (envelope record) = some (.str record.id.str) := rfl
  unfold extractOutboxId
  simp only [hl, toText_json, UUID.ofText_str]

theorem extractOutboxId_header (py : Platform) (u : UUID) {body : List (String × Json)}
    {headers : Headers} (hbody : lookup "outbox_id" body = none ∨
      lookup "outbox_id" body = some .null)
    (hheader : lookup outboxIdHeader headers = some (.str u.str)) :
    extractOutboxId py body (some headers) = some u := by
  unfold extractOutboxId
  rcases hbody with hb | hb
  · simp only [hb, hheader, toText_str, UUID.ofText_str]
  · simp only [hb, hheader, toText_str, UUID.ofText_str]

/-- The envelope has no payment id of its own: only the payload's counts. -/
theorem extractPaymentId_payload (py : Platform) (record : OutboxRecord) :
    extractPaymentId py (envelope record) =
      toText py ((lookup "payment_id" record.payload.entries).map Json.toValue) := by
  have hl : lookup "payload" (envelope record) = some (.obj record.payload.entries) := rfl
  have hno : lookup "payment_id" (envelope record) = none := rfl
  unfold extractPaymentId
  simp only [hl, hno]
  split
  · rename_i h
    rw [h]
  · rename_i h
    rw [h]
    rfl
  · rename_i raw hnull h
    rw [h]
    rfl

/-- **The payment id survives the envelope.** -/
theorem extractPaymentId_envelope (py : Platform) (record : OutboxRecord) (u : UUID)
    (h : record.payload = JsonObject.single "payment_id" u.str) :
    extractPaymentId py (envelope record) = some u.str := by
  have hl : lookup "payment_id" record.payload.entries = some (.str u.str) := by
    rw [h]
    rfl
  rw [extractPaymentId_payload, hl, toText_json]

theorem encode_eq {py : Platform} {record : OutboxRecord} {body : List (String × Json)}
    {headers : Headers} (h : encode py record = .ok (body, headers)) :
    body = envelope record ∧
      headers = [(outboxIdHeader, .str record.id.str), (eventTypeHeader, .str record.eventType)] := by
  unfold encode at h
  split at h
  · cases h
    exact ⟨rfl, rfl⟩
  · cases h

/-- **The codec's round trip.** What is encoded says which record it is, with any headers or none;
so do its headers alone; and its payment id is the payload's, trimmed, or none. -/
theorem encode_round_trip (py : Platform) (record : OutboxRecord) {body : List (String × Json)}
    {headers : Headers} (h : encode py record = .ok (body, headers)) :
    (∀ other : Option Headers, extractOutboxId py body other = some record.id) ∧
    (∀ bare : List (String × Json), lookup "outbox_id" bare = none ∨
      lookup "outbox_id" bare = some .null →
        extractOutboxId py bare (some headers) = some record.id) ∧
    ((lookup "payment_id" record.payload.entries = none ∨
      lookup "payment_id" record.payload.entries = some .null) →
        extractPaymentId py body = none) ∧
    (∀ text, lookup "payment_id" record.payload.entries = some (.str text) →
      extractPaymentId py body = if strip text = "" then none else some (strip text)) ∧
    ∀ raw, lookup "payment_id" record.payload.entries = some raw → raw ≠ .null →
      (∀ text, raw ≠ .str text) → extractPaymentId py body =
        if strip (py.render raw.toValue) = "" then none
        else some (strip (py.render raw.toValue)) := by
  obtain ⟨rfl, rfl⟩ := encode_eq h
  refine ⟨extractOutboxId_envelope py record, fun bare hbare => ?_, fun hnone => ?_,
    fun text htext => ?_, fun raw hraw hnull hstr => ?_⟩
  · exact extractOutboxId_header py record.id hbare rfl
  · rw [extractPaymentId_payload]
    rcases hnone with hn | hn
    · rw [hn]; rfl
    · rw [hn]; rfl
  · rw [extractPaymentId_payload, htext]
    rfl
  · rw [extractPaymentId_payload, hraw]
    cases raw with
    | null => exact absurd rfl hnull
    | str text => exact absurd rfl (hstr text)
    | _ => rfl

theorem encode_round_trip_sample : ∃ (py : Platform) (record : OutboxRecord)
    (body : List (String × Json)) (headers : Headers),
    encode py record = .ok (body, headers) ∧ extractOutboxId py body none = some record.id ∧
      extractPaymentId py body = some "7" := by
  let py : Platform := ⟨fun _ => none, fun _ => none, fun _ => "", fun _ => "", fun _ => true, .nan⟩
  let payload : JsonObject :=
    ⟨[("outbox_id", .int 5), ("payment_id", .str " 7 ")], by
      simp [Json.WF, Json.WFEntries, Json.WFEntry]⟩
  let record : OutboxRecord :=
    ⟨UUID.ofNat 1, "PaymentCreated", payload, 0, .processing, 0, none, none, none⟩
  have h := encode_round_trip py record (rfl : encode py record = .ok (_, _))
  refine ⟨py, record, _, _, rfl, h.1 none, ?_⟩
  rw [h.2.2.2.1 " 7 " rfl]
  decide +kernel

end OutboxEventCodec

end PaymentProcessing
