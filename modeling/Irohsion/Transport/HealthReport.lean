import Irohsion.Foundation.LittleEndian
import Irohsion.Foundation.Numerals
import Irohsion.Transport.HealthText

/-! # Health reports on the wire

A report is a text of lines: a header, one line for each endpoint and one for
each chat message, with their fields between tabs. Every error is the context
under which the source reports it.
-/

namespace Irohsion.Transport

structure EndpointHealth where
  endpointId : Text
  achievedMbps : Float32
  lastSeq : Option UInt64
  maxSeq : Option UInt64
  deriving DecidableEq

structure ChatMessage where
  id : UInt64
  unixMs : UInt64
  user : Text
  text : Text
  deriving DecidableEq

structure HealthReport where
  seq : UInt64
  unixMs : UInt64
  endpoints : List EndpointHealth
  chat : List ChatMessage
  deriving DecidableEq

def healthReportMagic : Text := "irohsion-health/v2".toList

def absent : Text := ['-']

def printOptional : Option UInt64 → Text
  | some value => printU64 value
  | none => absent

def HealthReport.headerFields (report : HealthReport) : List Text :=
  [healthReportMagic, printU64 report.seq, printU64 report.unixMs]

def EndpointHealth.fields (endpoint : EndpointHealth) : List Text :=
  ["endpoint".toList, endpoint.endpointId, printFourDecimals endpoint.achievedMbps,
    printOptional endpoint.lastSeq, printOptional endpoint.maxSeq]

def ChatMessage.fields (message : ChatMessage) : List Text :=
  ["chat".toList, printU64 message.id, printU64 message.unixMs, encodeHealthText message.user,
    encodeHealthText message.text]

def HealthReport.rows (report : HealthReport) : List (List Text) :=
  report.headerFields ::
    (report.endpoints.map EndpointHealth.fields ++ report.chat.map ChatMessage.fields)

def utf8 (text : Text) : Bytes := (String.ofList text).toUTF8.data.toList

def fromUtf8 (data : Bytes) : Option Text :=
  (String.fromUTF8? (ByteArray.mk data.toArray)).map String.toList

def encodeHealthReport (report : HealthReport) : Bytes :=
  utf8 ((report.rows.map (Text.joinFields '\t')).flatMap (· ++ ['\n']))

def context {α : Type} (text : String) : Option α → Except String α
  | some value => .ok value
  | none => .error text

/-- The next of the fields or lines that are left, and the rest. -/
def next (missing : String) : List Text → Except String (Text × List Text)
  | [] => .error missing
  | text :: rest => .ok (text, rest)

/-- An absent value or `-` has the given default. -/
def optional (invalid : String) (default : Option UInt64) :
    Option Text → Except String (Option UInt64)
  | none => .ok default
  | some text =>
      if text = absent then .ok default
      else do
        let value ← context invalid (parseU64 text)
        return some value

def decodeChat (fields : List Text) : Except String ChatMessage := do
  let (idText, fields) ← next "missing chat id" fields
  let id ← context "invalid chat id" (parseU64 idText)
  let (unixMsText, fields) ← next "missing chat unix_ms" fields
  let unixMs ← context "invalid chat unix_ms" (parseU64 unixMsText)
  let (user, fields) ← next "missing chat user" fields
  let (text, _) ← next "missing chat text" fields
  return { id, unixMs, user := decodeHealthText user, text := decodeHealthText text }

/-- Older rows have a target before the achieved throughput, or no last column. -/
def endpointValues : List Text → Except String (Text × Option Text × Option Text)
  | [achievedMbps, lastSeq] => .ok (achievedMbps, some lastSeq, none)
  | [achievedMbps, lastSeq, maxSeq] => .ok (achievedMbps, some lastSeq, some maxSeq)
  | [_, achievedMbps, lastSeq, maxSeq] => .ok (achievedMbps, some lastSeq, some maxSeq)
  | _ => .error "invalid endpoint health row"

def decodeEndpoint (fields : List Text) : Except String EndpointHealth := do
  let (endpointId, values) ← next "missing endpoint id" fields
  let (achievedText, lastSeqValue, maxSeqValue) ← endpointValues values
  let achievedMbps ← context "invalid achieved throughput" (parseF32 achievedText)
  let lastSeq ← optional "invalid last_seq" none lastSeqValue
  let maxSeq ← optional "invalid max_seq" lastSeq maxSeqValue
  return { endpointId, achievedMbps, lastSeq, maxSeq }

def decodeRow (report : HealthReport) (line : Text) : Except String HealthReport :=
  if line = [] then return report
  else do
    let (kind, fields) ← next "missing health report row kind" (line.splitOn '\t')
    if kind = "chat".toList then
      let message ← decodeChat fields
      return { report with chat := report.chat ++ [message] }
    else if kind = "endpoint".toList then
      let endpoint ← decodeEndpoint fields
      return { report with endpoints := report.endpoints ++ [endpoint] }
    else throw "unexpected health report row kind"

def decodeHealthReport (data : Bytes) : Except String HealthReport := do
  let text ← context "health report is not valid utf-8" (fromUtf8 data)
  let (header, rows) ← next "missing health report header" text.lines
  let (magic, fields) ← next "missing health report magic" (header.splitOn '\t')
  if magic = healthReportMagic then
    let (seqText, fields) ← next "missing health report seq" fields
    let seq ← context "invalid health report seq" (parseU64 seqText)
    let (unixMsText, _) ← next "missing health report unix_ms" fields
    let unixMs ← context "invalid health report unix_ms" (parseU64 unixMsText)
    rows.foldlM decodeRow { seq, unixMs, endpoints := [], chat := [] }
  else throw "unexpected health report magic"

theorem ok_bind {α β : Type} (value : α) (rest : α → Except String β) :
    (Except.ok value >>= rest) = rest value := rfl

theorem fromUtf8_utf8 (text : Text) : fromUtf8 (utf8 text) = some text := by
  have valid := (String.ofList text).isValidUTF8
  have decoded : String.fromUTF8? (String.ofList text).toUTF8 = some (String.ofList text) := by
    rw [String.fromUTF8?, String.toUTF8_eq_toByteArray, dif_pos valid]
    rfl
  rw [fromUtf8, utf8, Array.toArray_toList, decoded, Option.map_some, String.toList_ofList]

theorem isField_printOptional (value : Option UInt64) : (printOptional value).IsField := by
  cases value with
  | none => decide
  | some value => exact isField_printU64 value

theorem isField_encodeHealthText (text : Text) : (encodeHealthText text).IsField where
  noTab := not_mem_encodeHealthText text (.inl rfl)
  noNewline := not_mem_encodeHealthText text (.inr (.inl rfl))
  noCarriageReturn := not_mem_encodeHealthText text (.inr (.inr rfl))

theorem HealthReport.isField_headerFields (report : HealthReport) :
    ∀ field ∈ report.headerFields, field.IsField := by
  have magicField : healthReportMagic.IsField := by decide
  simp [headerFields, magicField, isField_printU64]

theorem EndpointHealth.isField_fields {endpoint : EndpointHealth}
    (idField : endpoint.endpointId.IsField) : ∀ field ∈ endpoint.fields, field.IsField := by
  have kindField : Text.IsField "endpoint".toList := by decide
  have rateField : (printFourDecimals endpoint.achievedMbps).IsField :=
    FourDecimals.isField_text (FourDecimals.ofF32 endpoint.achievedMbps)
  simp only [fields, List.forall_mem_cons]
  exact ⟨kindField, idField, rateField, isField_printOptional _, isField_printOptional _,
    List.forall_mem_nil _⟩

theorem ChatMessage.isField_fields (message : ChatMessage) :
    ∀ field ∈ message.fields, field.IsField := by
  have kindField : Text.IsField "chat".toList := by decide
  simp only [fields, List.forall_mem_cons]
  exact ⟨kindField, isField_printU64 _, isField_printU64 _, isField_encodeHealthText _,
    isField_encodeHealthText _, List.forall_mem_nil _⟩

theorem HealthReport.isField_rows {report : HealthReport}
    (idFields : ∀ endpoint ∈ report.endpoints, endpoint.endpointId.IsField) :
    ∀ row ∈ report.rows, ∀ field ∈ row, field.IsField := by
  intro row member
  rcases List.mem_cons.mp member with rfl | others
  · exact report.isField_headerFields
  rcases List.mem_append.mp others with ofEndpoint | ofChat
  · rcases List.mem_map.mp ofEndpoint with ⟨endpoint, inReport, rfl⟩
    exact EndpointHealth.isField_fields (idFields endpoint inReport)
  · rcases List.mem_map.mp ofChat with ⟨message, -, rfl⟩
    exact message.isField_fields

theorem optional_printOptional (invalid : String) (default value : Option UInt64) :
    optional invalid default (some (printOptional value)) = .ok (value.or default) := by
  cases value with
  | none => rfl
  | some value =>
      have notAbsent : printU64 value ≠ absent := by
        intro same
        have dashDigit := @isDigit_of_mem_printU64 value '-' (by simp [same, absent])
        contradiction
      simp only [optional, printOptional, if_neg notAbsent, parseU64_printU64]
      rfl

/-- What is received of an endpoint: its rate as the number that its text denotes. -/
def EndpointHealth.received (endpoint : EndpointHealth) : EndpointHealth :=
  { endpoint with achievedMbps := roundToFourDecimals endpoint.achievedMbps }

theorem decodeEndpoint_fields {endpoint : EndpointHealth}
    (maxWithLast : endpoint.maxSeq = none → endpoint.lastSeq = none) :
    decodeEndpoint endpoint.fields.tail = .ok endpoint.received := by
  have maxDefault : endpoint.maxSeq.or endpoint.lastSeq = endpoint.maxSeq := by
    cases maxSeq : endpoint.maxSeq with
    | none => rw [maxWithLast maxSeq, Option.or_none]
    | some value => rfl
  have lastRead := optional_printOptional "invalid last_seq" none endpoint.lastSeq
  have maxRead := optional_printOptional "invalid max_seq" endpoint.lastSeq endpoint.maxSeq
  rw [Option.or_none] at lastRead
  rw [maxDefault] at maxRead
  simp only [EndpointHealth.fields, List.tail_cons, decodeEndpoint, next, endpointValues,
    ok_bind]
  rw [parseF32_printFourDecimals, context, ok_bind, lastRead, ok_bind, maxRead, ok_bind]
  rfl

theorem decodeChat_fields (message : ChatMessage) :
    decodeChat message.fields.tail = .ok message := by
  simp only [ChatMessage.fields, List.tail_cons, decodeChat, next, ok_bind, parseU64_printU64,
    context, decodeHealthText_encodeHealthText]
  rfl

theorem splitOn_row {kind : Text} {fields : List Text}
    (areFields : ∀ field ∈ kind :: fields, field.IsField) :
    (Text.joinFields '\t' (kind :: fields)).splitOn '\t' = kind :: fields :=
  Text.splitOn_tab_joinFields (List.cons_ne_nil kind fields) areFields

theorem joinFields_ne_nil {kind : Text} {fields : List Text}
    (areFields : ∀ field ∈ kind :: fields, field.IsField) (nonempty : kind ≠ []) :
    Text.joinFields '\t' (kind :: fields) ≠ [] := by
  intro emptyLine
  have split := splitOn_row areFields
  rw [emptyLine, List.splitOn_nil] at split
  exact nonempty (List.cons.inj split).1.symm

theorem decodeRow_endpoint (report : HealthReport) {endpoint : EndpointHealth}
    (idField : endpoint.endpointId.IsField)
    (maxWithLast : endpoint.maxSeq = none → endpoint.lastSeq = none) :
    decodeRow report (Text.joinFields '\t' endpoint.fields) =
      .ok { report with endpoints := report.endpoints ++ [endpoint.received] } := by
  have areFields := EndpointHealth.isField_fields idField
  have notEmpty := joinFields_ne_nil areFields (by decide)
  have decoded := decodeEndpoint_fields maxWithLast
  rw [EndpointHealth.fields] at areFields decoded ⊢
  rw [decodeRow, if_neg notEmpty, splitOn_row areFields, next, ok_bind]
  dsimp only
  rw [if_neg (by decide), if_pos rfl]
  exact congrArg (· >>= _) decoded

theorem decodeRow_chat (report : HealthReport) (message : ChatMessage) :
    decodeRow report (Text.joinFields '\t' message.fields) =
      .ok { report with chat := report.chat ++ [message] } := by
  have areFields := message.isField_fields
  have notEmpty := joinFields_ne_nil areFields (by decide)
  have decoded := decodeChat_fields message
  rw [ChatMessage.fields] at areFields decoded ⊢
  rw [decodeRow, if_neg notEmpty, splitOn_row areFields, next, ok_bind]
  dsimp only
  rw [if_pos rfl]
  exact congrArg (· >>= _) decoded

theorem foldlM_decodeRow_endpoints {endpoints : List EndpointHealth} (report : HealthReport)
    (idFields : ∀ endpoint ∈ endpoints, endpoint.endpointId.IsField)
    (maxWithLast : ∀ endpoint ∈ endpoints, endpoint.maxSeq = none → endpoint.lastSeq = none) :
    ((endpoints.map EndpointHealth.fields).map (Text.joinFields '\t')).foldlM decodeRow report =
      .ok { report with
        endpoints := report.endpoints ++ endpoints.map EndpointHealth.received } := by
  induction endpoints generalizing report with
  | nil => simp; rfl
  | cons endpoint rest induction =>
      rw [List.forall_mem_cons] at idFields maxWithLast
      rw [List.map_cons, List.map_cons, List.foldlM_cons,
        decodeRow_endpoint report idFields.1 maxWithLast.1, ok_bind,
        induction _ idFields.2 maxWithLast.2, List.map_cons, List.append_assoc,
        List.singleton_append]

theorem foldlM_decodeRow_chat (messages : List ChatMessage) (report : HealthReport) :
    ((messages.map ChatMessage.fields).map (Text.joinFields '\t')).foldlM decodeRow report =
      .ok { report with chat := report.chat ++ messages } := by
  induction messages generalizing report with
  | nil => simp; rfl
  | cons message rest induction =>
      rw [List.map_cons, List.map_cons, List.foldlM_cons, decodeRow_chat report message, ok_bind,
        induction, List.append_assoc, List.singleton_append]

/-- What the header says, and then what the rows add to it. -/
theorem decodeHealthReport_encodeHealthReport_rows {report : HealthReport}
    (idFields : ∀ endpoint ∈ report.endpoints, endpoint.endpointId.IsField) :
    decodeHealthReport (encodeHealthReport report) =
      (report.rows.tail.map (Text.joinFields '\t')).foldlM decodeRow
        { seq := report.seq, unixMs := report.unixMs, endpoints := [], chat := [] } := by
  have headerFields := report.isField_headerFields
  rw [decodeHealthReport, encodeHealthReport, fromUtf8_utf8, context, ok_bind,
    Text.lines_of_rows (HealthReport.isField_rows idFields), HealthReport.rows, List.map_cons,
    next, ok_bind]
  rw [HealthReport.headerFields] at headerFields ⊢
  simp only [splitOn_row headerFields, next, ok_bind, if_true, parseU64_printU64, context,
    List.tail_cons]

/-- A report is received as it was sent, with the rates rounded as they are printed. -/
theorem decodeHealthReport_encodeHealthReport {report : HealthReport}
    (idFields : ∀ endpoint ∈ report.endpoints, endpoint.endpointId.IsField)
    (maxWithLast :
      ∀ endpoint ∈ report.endpoints, endpoint.maxSeq = none → endpoint.lastSeq = none) :
    decodeHealthReport (encodeHealthReport report) =
      .ok { report with endpoints := report.endpoints.map EndpointHealth.received } := by
  rw [decodeHealthReport_encodeHealthReport_rows idFields, HealthReport.rows, List.tail_cons,
    List.map_append, List.foldlM_append, foldlM_decodeRow_endpoints _ idFields maxWithLast, ok_bind,
    foldlM_decodeRow_chat, List.nil_append, List.nil_append]

/-- A path that sent nothing yet, one that did, and a message with every special character. -/
def mixedReport : HealthReport where
  seq := 7
  unixMs := 1234
  endpoints :=
    [{ endpointId := "idle".toList, achievedMbps := 0, lastSeq := none, maxSeq := none },
      { endpointId := "".toList, achievedMbps := 1.25, lastSeq := some 10, maxSeq := some 12 }]
  chat :=
    [{ id := 42, unixMs := 5678, user := "".toList, text := "a\tb\nc\rd\\n\\".toList }]

theorem decodeHealthReport_mixedReport :
    decodeHealthReport (encodeHealthReport mixedReport) =
      .ok { mixedReport with endpoints := mixedReport.endpoints.map EndpointHealth.received } :=
  decodeHealthReport_encodeHealthReport (by decide) (by decide)

end Irohsion.Transport
