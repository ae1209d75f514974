import Workbench.Json.Printer
import Workbench.Service.Reply

/-!
# The service as a tool

Agents speak a protocol of their own, in which the whole service is one tool.
A message without an id, or one that only notifies, gets no reply. What the
service answers, a fault included, comes back as the content of a tool result;
only what is wrong with the message itself is an error of the protocol.
-/

namespace Workbench.Service.Tool

def name : String := "codeact_query"

def defaultProtocol : String := "2024-11-05"

/-! ## Errors of the protocol -/

inductive ProtocolError where
  | unparsable (why : String)
  | notRequest
  | unknownMethod
  | unknownTool
  | badArguments (why : String)
deriving DecidableEq, Repr

namespace ProtocolError

/-- The numbers that the protocol reserves for these errors. -/
def code : ProtocolError → Json.Number
  | .unparsable _ => .negSucc 32699
  | .notRequest => .negSucc 32599
  | .unknownMethod | .unknownTool => .negSucc 32600
  | .badArguments _ => .negSucc 32601

def message : ProtocolError → String
  | .unparsable why => "parse error: " ++ why
  | .notRequest => "invalid request"
  | .unknownMethod => "method not found"
  | .unknownTool => "unknown tool"
  | .badArguments why => "invalid arguments: " ++ why

def toJson (e : ProtocolError) : Json := .object [("code", .num e.code), ("message", .str e.message)]

end ProtocolError

def reply (id : Json) (outcome : Except ProtocolError Json) : Json :=
  .object [("jsonrpc", .str "2.0"), ("id", id), match outcome with
    | .ok j => ("result", j)
    | .error e => ("error", e.toJson)]

/-! ## What the server says of itself -/

def instructions : String :=
  "Call " ++ name ++ " with a method and params. " ++
  "discover_actions \x7bpath, line, column, end_line, end_column, profile\x7d returns tokens bound to the current " ++
  "workspace version; preview_action \x7btoken\x7d shows the change-set and apply_action \x7btoken\x7d commits it " ++
  "when policy allows. A token dies as soon as the workspace version moves, so discover again after any change. " ++
  "cleanup \x7bscope, path, profile, expected_version\x7d runs the ordered cleanup rules. " ++
  "call_graph \x7bsymbol_id, direction, max_depth\x7d walks callers and callees; find_symbol \x7bquery\x7d gives " ++
  "symbol ids. list_methods shows the params schema of every method."

def greeting (params : Json) : Json :=
  let protocol := ((params.field? "protocolVersion").bind Json.str?).getD defaultProtocol
  .object [("protocolVersion", .str protocol), ("capabilities", .object [("tools", .object [])]),
    ("serverInfo", .object [("name", .str "codeact"), ("version", .str "0.1.0")]),
    ("instructions", .str instructions)]

def typed (type : String) (more : List (String × Json)) : Json := .object (("type", .str type) :: more)

def description : Json :=
  .object [("name", .str name),
    ("description",
      .str "Code actions, cleanup, call graphs and symbol navigation over the loaded C# workspace."),
    ("inputSchema", typed "object" [
      ("properties", .object [
        ("method", typed "string" [("enum", .strs Method.names)]),
        ("params", typed "object" [("description", .str "Method parameters (see list_methods).")]),
        ("text_mode", typed "string" [("enum", .strs ["pretty", "compact", "none"])]),
        ("include_structured", typed "boolean" [])]),
      ("required", .strs ["method"])])]

/-! ## Calling the tool -/

def argumentShape : Arguments.Shape where
  title := "ToolArgs"
  fields := [{ name := "method", slot := .text }, { name := "params", slot := .anything, default := some .null },
    { name := "text_mode", slot := .choice ["none", "compact", "pretty"], default := some (.str "pretty") },
    { name := "include_structured", slot := .flag, default := some (.bool true) }]

def textOf (form : String) (body : Json) : Option String :=
  if form = "none" then none else if form = "compact" then some body.compact else some body.pretty

/-- A result as an object, which it has to be in its structured form. -/
def structured : Json → Json
  | .obj fields => .obj fields
  | body => .object [("items", body)]

def content (outcome : Result Json) (form : String) (withStructure : Bool) : Json :=
  let body := match outcome with
    | .ok j => j
    | .error f =>
      .object [("error", .object [("code", .str f.code), ("message", .str f.message), ("data", .ofOption id f.data)])]
  .object ([("content", .arr ((textOf form body).toList.map fun t => typed "text" [("text", .str t)])),
      ("isError", .bool (match outcome with
        | .ok _ => false
        | .error _ => true))] ++
    if withStructure then [("structuredContent", structured body)] else [])

section
variable {σ : Type} (h : Host σ) (m : CodeModel) (limits : Limits)

def call (params : Json) : StateM σ (Except ProtocolError Json) :=
  if (params.field? "name").bind Json.str? ≠ some name then return .error .unknownTool
  else
    match Arguments.fit argumentShape ((params.field? "arguments").getD (.obj [])) with
    | .error e => return .error (.badArguments e.message)
    | .ok a => do
      let outcome ← (handle h m limits (a.text "method") (a.value "params") .never).run
      return .ok (content outcome (a.text "text_mode") (a.flag "include_structured"))

def dispatch (method : String) (params : Json) : StateM σ (Except ProtocolError Json) :=
  match method with
  | "initialize" => return .ok (greeting params)
  | "ping" => return .ok (.object [])
  | "tools/list" => return .ok (.object [("tools", .arr [description])])
  | "tools/call" => call h m limits params
  | "resources/list" => return .ok (.object [("resources", .arr [])])
  | "prompts/list" => return .ok (.object [("prompts", .arr [])])
  | _ => return .error .unknownMethod

def handleMessage (message : Json) : StateM σ (Option Json) :=
  match (message.field? "method").bind Json.str?, message.field? "id" with
  | none, id => return id.map fun id => reply id (.error .notRequest)
  | some _, none => return none
  | some method, some id =>
    if "notifications/".isPrefixOf method then return none
    else do return some (reply id (← dispatch h m limits method ((message.field? "params").getD .null)))

def respond (line : String) : StateM σ (Option Json) :=
  match Json.parse line with
  | .ok message => handleMessage h m limits message
  | .error e => return some (reply .null (.error (.unparsable e.render)))

def serveMessages (lines : List String) : StateM σ (List Json) := serve (respond h m limits) lines

end

end Workbench.Service.Tool
