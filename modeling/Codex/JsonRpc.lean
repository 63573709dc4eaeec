/-
The JSON-RPC messages of the exec server (`exec-server-protocol/src/rpc.rs`):
what `serde` writes for each and what it reads back.

The text of a JSON value is the `serde_json` crate's business and is a
parameter (`JsonText`): `write` prints a value, `read` gives the members of a
text in order, a repeated key included. What the message type itself does
with a value that was read is modelled here: it counts the values
(`BoundedValueSeed`), refuses a repeated key, unwraps the two private tokens,
and picks the message by the members it finds.
-/
import Codex.Text

namespace Codex.JsonRpc

abbrev Bytes := List UInt8

/-- An `i64`. -/
abbrev I64 := { n : Int // -2 ^ 63 ≤ n ∧ n < 2 ^ 63 }

/-- A number with its literal: an integer in its shortest decimal form, or any other literal. -/
inductive Number where
  | integer (n : Int)
  | other (literal : Text)
  deriving DecidableEq, Repr

/-- `serde_json::Value`, the members of an object in order. -/
inductive Json where
  | null
  | bool (b : Bool)
  | number (n : Number)
  | string (s : Text)
  | array (values : List Json)
  | object (members : List (Text × Json))

/-- The text side of `serde_json`. -/
structure JsonText where
  write : Json → Bytes
  read : Bytes → Option Json
  readStr : Text → Option Json
  parseNumber : Text → Option Number

/-- `serde_json` reads back the text it writes for a value. -/
def JsonText.ReadsBack (text : JsonText) (v : Json) : Prop := text.read (text.write v) = some v

def maxJsonrpcValueNodes : Nat := 256 * 1024
def serdeJsonNumberToken : Text := "$serde_json::private::Number".toList
def serdeJsonRawValueToken : Text := "$serde_json::private::RawValue".toList

/-! ## Reading a value -/

/-- `remaining.checked_sub(1)` -/
def charge {β : Type} (remaining : Nat) (visit : Nat → Option β) : Option β :=
  match remaining with
  | 0 => none
  | remaining + 1 => visit remaining

mutual

/-- `BoundedValueVisitor`: the value read and the budget left after it; `raw`
reads the text wrapped under the raw value token. -/
def visitValue (text : JsonText) (raw : Text → Nat → Option (Json × Nat)) : Json → Nat → Option (Json × Nat)
  | .null, remaining => some (.null, remaining)
  | .bool b, remaining => some (.bool b, remaining)
  | .number n, remaining => some (.number n, remaining)
  | .string s, remaining => some (.string s, remaining)
  | .array values, remaining => do
    let (values, remaining) ← visitSeq text raw values remaining
    return (.array values, remaining)
  | .object members, remaining => visitMap text raw members remaining

def visitSeq (text : JsonText) (raw : Text → Nat → Option (Json × Nat)) :
    List Json → Nat → Option (List Json × Nat)
  | [], remaining => some ([], remaining)
  | v :: values, remaining => do
    let (v, remaining) ← charge remaining fun remaining => visitValue text raw v remaining
    let (values, remaining) ← visitSeq text raw values remaining
    return (v :: values, remaining)

/-- The first key decides whether the object stands for a number or a raw value. -/
def visitMap (text : JsonText) (raw : Text → Nat → Option (Json × Nat)) :
    List (Text × Json) → Nat → Option (Json × Nat)
  | [], remaining => some (.object [], remaining)
  | (key, v) :: members, remaining =>
    if key = serdeJsonNumberToken then
      match v, members with
      | .string encoded, [] => (text.parseNumber encoded).map fun n => (.number n, remaining)
      | _, _ => none
    else if key = serdeJsonRawValueToken then
      match v, members with
      | .string encoded, [] => raw encoded remaining
      | _, _ => none
    else do
      let (v, remaining) ← charge remaining fun remaining => visitValue text raw v remaining
      let (members, remaining) ← visitMembers text raw [key] members remaining
      return (.object ((key, v) :: members), remaining)

/-- The members after the first; `keys` are those already inserted. -/
def visitMembers (text : JsonText) (raw : Text → Nat → Option (Json × Nat)) (keys : List Text) :
    List (Text × Json) → Nat → Option (List (Text × Json) × Nat)
  | [], remaining => some ([], remaining)
  | (key, v) :: members, remaining =>
    if keys.contains key then none
    else do
      let (v, remaining) ← charge remaining fun remaining => visitValue text raw v remaining
      let (members, remaining) ← visitMembers text raw (key :: keys) members remaining
      return ((key, v) :: members, remaining)

end

/-- A value wrapped as raw text, itself wrapped at most `fuel` deep; each
wrapper holds the next one's text, so the length of the text is fuel enough. -/
def visitRaw (text : JsonText) (fuel : Nat) (encoded : Text) (remaining : Nat) : Option (Json × Nat) :=
  match fuel with
  | 0 => none
  | fuel + 1 => do visitValue text (visitRaw text fuel) (← text.readStr encoded) remaining

/-- `BoundedValueSeed { remaining }.deserialize` of a whole text. -/
def boundedValue (text : JsonText) (bytes : Bytes) : Option Json := do
  let v ← text.read bytes
  let (v, _) ← charge maxJsonrpcValueNodes fun remaining => visitValue text (visitRaw text bytes.length) v remaining
  return v

/-! ## The messages -/

/-- Untagged: the text or the number itself. -/
inductive RequestId where
  | string (s : Text)
  | integer (n : I64)
  deriving DecidableEq

structure W3cTraceContext where
  traceparent : Option Text
  tracestate : Option Text
  deriving DecidableEq

structure JSONRPCRequest where
  id : RequestId
  method : Text
  params : Option Json
  trace : Option W3cTraceContext

structure JSONRPCNotification where
  method : Text
  params : Option Json

structure JSONRPCResponse where
  id : RequestId
  result : Json

structure JSONRPCErrorError where
  code : I64
  data : Option Json
  message : Text

structure JSONRPCError where
  error : JSONRPCErrorError
  id : RequestId

inductive JSONRPCMessage where
  | request (r : JSONRPCRequest)
  | notification (n : JSONRPCNotification)
  | response (r : JSONRPCResponse)
  | error (e : JSONRPCError)

def idKey : Text := "id".toList
def methodKey : Text := "method".toList
def paramsKey : Text := "params".toList
def traceKey : Text := "trace".toList
def resultKey : Text := "result".toList
def errorKey : Text := "error".toList
def codeKey : Text := "code".toList
def dataKey : Text := "data".toList
def messageKey : Text := "message".toList
def traceparentKey : Text := "traceparent".toList
def tracestateKey : Text := "tracestate".toList

/-! ### Written -/

/-- A member that `skip_serializing_if = "Option::is_none"` leaves out. -/
def optionalMember (key : Text) (v : Option Json) : List (Text × Json) :=
  match v with
  | some v => [(key, v)]
  | none => []

def RequestId.toValue : RequestId → Json
  | .string s => .string s
  | .integer n => .number (.integer n.val)

def W3cTraceContext.toValue (t : W3cTraceContext) : Json :=
  .object (optionalMember traceparentKey (t.traceparent.map .string) ++
    optionalMember tracestateKey (t.tracestate.map .string))

def JSONRPCErrorError.toValue (e : JSONRPCErrorError) : Json :=
  .object ((codeKey, .number (.integer e.code.val)) :: optionalMember dataKey e.data ++
    [(messageKey, .string e.message)])

def JSONRPCMessage.toValue : JSONRPCMessage → Json
  | .request r => .object ((idKey, r.id.toValue) :: (methodKey, .string r.method) ::
      optionalMember paramsKey r.params ++ optionalMember traceKey (r.trace.map W3cTraceContext.toValue))
  | .notification n => .object ((methodKey, .string n.method) :: optionalMember paramsKey n.params)
  | .response r => .object [(idKey, r.id.toValue), (resultKey, r.result)]
  | .error e => .object [(errorKey, e.error.toValue), (idKey, e.id.toValue)]

/-! ### Read -/

/-- The fields of a derived struct: by key from an object, by position from an array. -/
def structFields (keys : List Text) : Json → Option (List (Option Json))
  | .object members => some (keys.map fun key => members.lookup key)
  | .array values =>
    if values.length ≤ keys.length then some ((List.range keys.length).map fun i => values[i]?) else none
  | _ => none

def readText : Option Json → Option Text
  | some (.string s) => some s
  | _ => none

def readI64 : Option Json → Option I64
  | some (.number (.integer n)) => if h : -2 ^ 63 ≤ n ∧ n < 2 ^ 63 then some ⟨n, h⟩ else none
  | _ => none

def readRequestId : Option Json → Option RequestId
  | some (.string s) => some (.string s)
  | v => (readI64 v).map .integer

/-- `Option<Value>` with a default: an absent member and a `null` are both `None`. -/
def readOptional : Option Json → Option Json
  | some .null => none
  | v => v

/-- `Option<String>` with a default. -/
def readOptionalText (v : Option Json) : Option (Option Text) :=
  match readOptional v with
  | none => some none
  | some v => (readText (some v)).map some

def W3cTraceContext.ofValue (v : Json) : Option W3cTraceContext := do
  match ← structFields [traceparentKey, tracestateKey] v with
  | [traceparent, tracestate] =>
    return { traceparent := ← readOptionalText traceparent, tracestate := ← readOptionalText tracestate }
  | _ => none

/-- `Option<W3cTraceContext>` with a default. -/
def readOptionalTrace (v : Option Json) : Option (Option W3cTraceContext) :=
  match readOptional v with
  | none => some none
  | some v => (W3cTraceContext.ofValue v).map some

def JSONRPCRequest.ofValue (v : Json) : Option JSONRPCRequest := do
  match ← structFields [idKey, methodKey, paramsKey, traceKey] v with
  | [id, method, params, trace] =>
    return { id := ← readRequestId id, method := ← readText method, params := readOptional params,
             trace := ← readOptionalTrace trace }
  | _ => none

def JSONRPCNotification.ofValue (v : Json) : Option JSONRPCNotification := do
  match ← structFields [methodKey, paramsKey] v with
  | [method, params] => return { method := ← readText method, params := readOptional params }
  | _ => none

def JSONRPCResponse.ofValue (v : Json) : Option JSONRPCResponse := do
  match ← structFields [idKey, resultKey] v with
  | [id, result] => return { id := ← readRequestId id, result := ← result }
  | _ => none

def JSONRPCErrorError.ofValue (v : Json) : Option JSONRPCErrorError := do
  match ← structFields [codeKey, dataKey, messageKey] v with
  | [code, data, message] =>
    return { code := ← readI64 code, data := readOptional data, message := ← readText message }
  | _ => none

def JSONRPCError.ofValue (v : Json) : Option JSONRPCError := do
  match ← structFields [errorKey, idKey] v with
  | [error, id] => return { error := ← JSONRPCErrorError.ofValue (← error), id := ← readRequestId id }
  | _ => none

def JSONRPCMessage.ofValue (v : Json) : Option JSONRPCMessage :=
  match v with
  | .object members =>
    if (members.lookup methodKey).isSome then
      if (members.lookup idKey).isSome then (JSONRPCRequest.ofValue v).map .request
      else (JSONRPCNotification.ofValue v).map .notification
    else if (members.lookup resultKey).isSome then (JSONRPCResponse.ofValue v).map .response
    else (JSONRPCError.ofValue v).map .error
  | _ => none

/-- `serde_json::from_slice::<JSONRPCMessage>` -/
def JSONRPCMessage.fromSlice (text : JsonText) (bytes : Bytes) : Option JSONRPCMessage := do
  JSONRPCMessage.ofValue (← boundedValue text bytes)

/-! ## What is read back -/

mutual

/-- The values a value is made of, itself included. -/
def Json.nodes : Json → Nat
  | .array values => 1 + Json.nodesOfList values
  | .object members => 1 + Json.nodesOfMembers members
  | _ => 1

def Json.nodesOfList : List Json → Nat
  | [] => 0
  | v :: values => v.nodes + Json.nodesOfList values

def Json.nodesOfMembers : List (Text × Json) → Nat
  | [] => 0
  | (_, v) :: members => v.nodes + Json.nodesOfMembers members

end

mutual

/-- A value whose objects have distinct keys, as every `serde_json::Map` has,
and do not begin with a private token. -/
def Json.Plain : Json → Prop
  | .array values => Json.PlainList values
  | .object members => (members.map Prod.fst).Nodup ∧
      (∀ key ∈ (members.map Prod.fst).head?, key ≠ serdeJsonNumberToken ∧ key ≠ serdeJsonRawValueToken) ∧
      Json.PlainMembers members
  | _ => True

def Json.PlainList : List Json → Prop
  | [] => True
  | v :: values => v.Plain ∧ Json.PlainList values

def Json.PlainMembers : List (Text × Json) → Prop
  | [] => True
  | (_, v) :: members => v.Plain ∧ Json.PlainMembers members

end

theorem Json.nodes_pos (v : Json) : 0 < v.nodes := by
  unfold Json.nodes
  split <;> omega

theorem charge_of_pos {β : Type} {remaining : Nat} (h : 0 < remaining) (visit : Nat → Option β) :
    charge remaining visit = visit (remaining - 1) := by
  cases remaining with
  | zero => exact absurd h (Nat.lt_irrefl 0)
  | succ n => rfl

section
variable (text : JsonText) (raw : Text → Nat → Option (Json × Nat))

mutual

/-- Within the budget, a plain value is read as it is. -/
theorem visitValue_plain : ∀ (v : Json) (remaining : Nat), v.Plain → v.nodes ≤ remaining + 1 →
    visitValue text raw v remaining = some (v, remaining + 1 - v.nodes)
  | .null, remaining, _, _ => rfl
  | .bool b, remaining, _, _ => rfl
  | .number n, remaining, _, _ => rfl
  | .string s, remaining, _, _ => rfl
  | .array values, remaining, hplain, hle => by
    simp only [Json.Plain, Json.nodes] at hplain hle
    have hseq := visitSeq_plain values remaining hplain (by omega)
    simp only [visitValue, hseq, Option.bind_eq_bind, Option.bind_some, Option.pure_def, Json.nodes]
    congr 2
    omega
  | .object [], remaining, _, _ => rfl
  | .object ((key, v) :: members), remaining, hplain, hle => by
    simp only [Json.Plain, Json.PlainMembers, Json.nodes, Json.nodesOfMembers, List.map_cons, List.nodup_cons,
      List.head?_cons, Option.mem_some_iff, forall_eq'] at hplain hle
    obtain ⟨⟨hkey, hnodup⟩, ⟨hnumber, hraw⟩, hv, hmembers⟩ := hplain
    have hpos := v.nodes_pos
    have hvisit := visitValue_plain v (remaining - 1) hv (by omega)
    have hrest := visitMembers_plain [key] members (remaining - v.nodes) hmembers (by omega) hnodup (by simpa using hkey)
    have hleft : remaining - 1 + 1 - v.nodes = remaining - v.nodes := by omega
    rw [hleft] at hvisit
    simp only [visitValue, visitMap, if_neg hnumber, if_neg hraw, charge_of_pos (show 0 < remaining by omega), hvisit,
      hrest, Option.bind_eq_bind, Option.bind_some, Option.pure_def, Json.nodes, Json.nodesOfMembers]
    congr 2
    omega

theorem visitSeq_plain : ∀ (values : List Json) (remaining : Nat), Json.PlainList values →
    Json.nodesOfList values ≤ remaining →
    visitSeq text raw values remaining = some (values, remaining - Json.nodesOfList values)
  | [], remaining, _, _ => rfl
  | v :: values, remaining, hplain, hle => by
    simp only [Json.PlainList, Json.nodesOfList] at hplain hle
    have hpos := v.nodes_pos
    have hvisit := visitValue_plain v (remaining - 1) hplain.1 (by omega)
    have hrest := visitSeq_plain values (remaining - v.nodes) hplain.2 (by omega)
    have hleft : remaining - 1 + 1 - v.nodes = remaining - v.nodes := by omega
    rw [hleft] at hvisit
    simp only [visitSeq, charge_of_pos (show 0 < remaining by omega), hvisit, hrest, Option.bind_eq_bind,
      Option.bind_some, Option.pure_def, Json.nodesOfList]
    congr 2
    omega

theorem visitMembers_plain : ∀ (keys : List Text) (members : List (Text × Json)) (remaining : Nat),
    Json.PlainMembers members → Json.nodesOfMembers members ≤ remaining → (members.map Prod.fst).Nodup →
    (∀ key ∈ keys, key ∉ members.map Prod.fst) →
    visitMembers text raw keys members remaining = some (members, remaining - Json.nodesOfMembers members)
  | _, [], remaining, _, _, _, _ => rfl
  | keys, (key, v) :: members, remaining, hplain, hle, hnodup, hkeys => by
    simp only [Json.PlainMembers, Json.nodesOfMembers, List.map_cons, List.nodup_cons] at hplain hle hnodup
    have hpos := v.nodes_pos
    have hnew : ¬ keys.contains key = true := fun hmem => hkeys key (List.contains_iff_mem.1 hmem) (by simp)
    have hvisit := visitValue_plain v (remaining - 1) hplain.1 (by omega)
    have hrest := visitMembers_plain (key :: keys) members (remaining - v.nodes) hplain.2 (by omega) hnodup.2 (by
      intro k hk hmem
      rcases List.mem_cons.1 hk with rfl | hk
      · exact hnodup.1 hmem
      · exact hkeys k hk (List.mem_cons_of_mem _ hmem))
    have hleft : remaining - 1 + 1 - v.nodes = remaining - v.nodes := by omega
    rw [hleft] at hvisit
    simp only [visitMembers, if_neg hnew, charge_of_pos (show 0 < remaining by omega), hvisit, hrest,
      Option.bind_eq_bind, Option.bind_some, Option.pure_def, Json.nodesOfMembers]
    congr 2
    omega

end

end

theorem boundedValue_plain {text bytes} {v : Json} (hread : text.read bytes = some v)
    (hplain : v.Plain) (hle : v.nodes ≤ maxJsonrpcValueNodes) : boundedValue text bytes = some v := by
  have hpos := v.nodes_pos
  have hvisit := visitValue_plain text (visitRaw text bytes.length) v (maxJsonrpcValueNodes - 1) hplain (by omega)
  unfold boundedValue
  simp only [hread, Option.bind_eq_bind, Option.bind_some, charge_of_pos (show 0 < maxJsonrpcValueNodes by omega),
    hvisit, Option.pure_def]

/-! ### The messages read back -/

/-- No optional member of the message is an explicit `null`. -/
def JSONRPCMessage.NoExplicitNull : JSONRPCMessage → Prop
  | .request r => r.params ≠ some .null
  | .notification n => n.params ≠ some .null
  | .response _ => True
  | .error e => e.error.data ≠ some .null

theorem readOptional_of_ne {v} (h : v ≠ some .null) : readOptional v = v := by
  unfold readOptional
  split
  · exact absurd rfl h
  · rfl

theorem readI64_toValue (n : I64) : readI64 (some (.number (.integer n.val))) = some n :=
  dif_pos n.property

theorem readRequestId_toValue (id : RequestId) : readRequestId (some id.toValue) = some id := by
  cases id with
  | string s => rfl
  | integer n => exact congrArg (Option.map RequestId.integer) (readI64_toValue n)

theorem readOptionalText_map (t : Option Text) : readOptionalText (t.map .string) = some t := by
  cases t <;> rfl

theorem lookup_optionalMember (key : Text) (v : Option Json) (rest : List (Text × Json)) :
    (optionalMember key v ++ rest).lookup key = v.or (rest.lookup key) := by
  cases v with
  | none => rfl
  | some v => simp [optionalMember]

theorem lookup_optionalMember_ne {key other : Text} (h : key ≠ other) (v : Option Json) (rest : List (Text × Json)) :
    (optionalMember other v ++ rest).lookup key = rest.lookup key := by
  cases v with
  | none => rfl
  | some v =>
    have hbeq : (key == other) = false := beq_eq_false_iff_ne.2 h
    rw [optionalMember, List.singleton_append, List.lookup_cons, hbeq]

theorem ofValue_traceContext (t : W3cTraceContext) : W3cTraceContext.ofValue t.toValue = some t := by
  obtain ⟨traceparent, tracestate⟩ := t
  have hne : tracestateKey ≠ traceparentKey := by decide
  have h₁ := lookup_optionalMember traceparentKey (traceparent.map .string)
    (optionalMember tracestateKey (tracestate.map .string))
  have h₂ := lookup_optionalMember_ne hne (traceparent.map .string)
    (optionalMember tracestateKey (tracestate.map .string))
  have h₃ := lookup_optionalMember tracestateKey (tracestate.map .string) []
  have h₄ := lookup_optionalMember_ne hne.symm (tracestate.map .string) []
  rw [List.append_nil] at h₃ h₄
  rw [h₄, List.lookup_nil, Option.or_none] at h₁
  rw [h₃, List.lookup_nil, Option.or_none] at h₂
  simp only [W3cTraceContext.ofValue, W3cTraceContext.toValue, structFields, List.map_cons, List.map_nil, h₁, h₂,
    Option.bind_eq_bind, Option.bind_some, readOptionalText_map, Option.pure_def]

theorem readOptionalTrace_map (t : Option W3cTraceContext) :
    readOptionalTrace (t.map W3cTraceContext.toValue) = some t := by
  cases t with
  | none => rfl
  | some t => exact congrArg (Option.map some) (ofValue_traceContext t)

theorem ofValue_request (r : JSONRPCRequest) (h : r.params ≠ some .null) :
    JSONRPCMessage.ofValue (JSONRPCMessage.request r).toValue = some (.request r) := by
  obtain ⟨id, method, params, trace⟩ := r
  have hmethod : (methodKey == idKey) = false := by decide
  have hparams : (paramsKey == idKey) = false ∧ (paramsKey == methodKey) = false := by decide
  have htrace : (traceKey == idKey) = false ∧ (traceKey == methodKey) = false := by decide
  have hne : traceKey ≠ paramsKey := by decide
  have h₁ := lookup_optionalMember paramsKey params (optionalMember traceKey (trace.map W3cTraceContext.toValue))
  have h₂ := lookup_optionalMember_ne hne params (optionalMember traceKey (trace.map W3cTraceContext.toValue))
  have h₃ := lookup_optionalMember traceKey (trace.map W3cTraceContext.toValue) []
  have h₄ := lookup_optionalMember_ne hne.symm (trace.map W3cTraceContext.toValue) []
  rw [List.append_nil] at h₃ h₄
  rw [h₄, List.lookup_nil, Option.or_none] at h₁
  rw [h₃, List.lookup_nil, Option.or_none] at h₂
  simp only [JSONRPCMessage.ofValue, JSONRPCMessage.toValue, JSONRPCRequest.ofValue, structFields, List.map_cons,
    List.map_nil, List.cons_append, List.lookup_cons, beq_self_eq_true, hmethod, hparams, htrace, h₁, h₂,
    Option.isSome_some, if_true, Option.bind_eq_bind, Option.bind_some, readRequestId_toValue, readText,
    readOptional_of_ne h, readOptionalTrace_map, Option.pure_def, Option.map_some]

theorem ofValue_notification (n : JSONRPCNotification) (h : n.params ≠ some .null) :
    JSONRPCMessage.ofValue (JSONRPCMessage.notification n).toValue = some (.notification n) := by
  obtain ⟨method, params⟩ := n
  have hid : (idKey == methodKey) = false := by decide
  have hparams : (paramsKey == methodKey) = false := by decide
  have hne : idKey ≠ paramsKey := by decide
  have h₁ := lookup_optionalMember paramsKey params []
  have h₂ := lookup_optionalMember_ne hne params []
  rw [List.append_nil, List.lookup_nil, Option.or_none] at h₁
  rw [List.append_nil, List.lookup_nil] at h₂
  simp only [JSONRPCMessage.ofValue, JSONRPCMessage.toValue, JSONRPCNotification.ofValue, structFields, List.map_cons,
    List.map_nil, List.lookup_cons, beq_self_eq_true, hid, hparams, h₁, h₂, Option.isSome_some, Option.isSome_none,
    if_true, Bool.false_eq_true, if_false, Option.bind_eq_bind, Option.bind_some, readText, readOptional_of_ne h,
    Option.pure_def, Option.map_some]

theorem ofValue_response (r : JSONRPCResponse) :
    JSONRPCMessage.ofValue (JSONRPCMessage.response r).toValue = some (.response r) := by
  have hmethod : (methodKey == idKey) = false ∧ (methodKey == resultKey) = false := by decide
  have hresult : (resultKey == idKey) = false := by decide
  simp only [JSONRPCMessage.ofValue, JSONRPCMessage.toValue, JSONRPCResponse.ofValue, structFields, List.map_cons,
    List.map_nil, List.lookup_cons, List.lookup_nil, beq_self_eq_true, hmethod, hresult, Option.isSome_some,
    Option.isSome_none, if_true, Bool.false_eq_true, if_false, Option.bind_eq_bind, Option.bind_some,
    readRequestId_toValue, Option.pure_def, Option.map_some]

theorem ofValue_errorError (e : JSONRPCErrorError) (h : e.data ≠ some .null) :
    JSONRPCErrorError.ofValue e.toValue = some e := by
  obtain ⟨code, data, message⟩ := e
  have hdata : (dataKey == codeKey) = false := by decide
  have hmessage : (messageKey == codeKey) = false := by decide
  have hne : messageKey ≠ dataKey := by decide
  have h₁ := lookup_optionalMember dataKey data [(messageKey, .string message)]
  have h₂ := lookup_optionalMember_ne hne data [(messageKey, .string message)]
  have h₃ : ([(messageKey, Json.string message)] : List (Text × Json)).lookup dataKey = none := by
    have : (dataKey == messageKey) = false := by decide
    rw [List.lookup_cons, this, List.lookup_nil]
  rw [h₃, Option.or_none] at h₁
  simp only [JSONRPCErrorError.ofValue, JSONRPCErrorError.toValue, structFields, List.map_cons, List.map_nil,
    List.cons_append, List.lookup_cons, beq_self_eq_true, hdata, hmessage, h₁, h₂, Option.bind_eq_bind,
    Option.bind_some, readI64_toValue, readText, readOptional_of_ne h, Option.pure_def]

theorem ofValue_error (e : JSONRPCError) (h : e.error.data ≠ some .null) :
    JSONRPCMessage.ofValue (JSONRPCMessage.error e).toValue = some (.error e) := by
  obtain ⟨error, id⟩ := e
  have hmethod : (methodKey == errorKey) = false ∧ (methodKey == idKey) = false := by decide
  have hresult : (resultKey == errorKey) = false ∧ (resultKey == idKey) = false := by decide
  have hid : (idKey == errorKey) = false := by decide
  simp only [JSONRPCMessage.ofValue, JSONRPCMessage.toValue, JSONRPCError.ofValue, structFields, List.map_cons,
    List.map_nil, List.lookup_cons, List.lookup_nil, beq_self_eq_true, hmethod, hresult, hid, Option.isSome_none,
    Bool.false_eq_true, if_false, Option.bind_eq_bind, Option.bind_some, readRequestId_toValue,
    ofValue_errorError error h, Option.pure_def, Option.map_some]

/-- **A message is read back from its own value**, unless it holds an explicit `null`. -/
theorem ofValue_toValue (m : JSONRPCMessage) (h : m.NoExplicitNull) : JSONRPCMessage.ofValue m.toValue = some m := by
  cases m with
  | request r => exact ofValue_request r h
  | notification n => exact ofValue_notification n h
  | response r => exact ofValue_response r
  | error e => exact ofValue_error e h

end Codex.JsonRpc
